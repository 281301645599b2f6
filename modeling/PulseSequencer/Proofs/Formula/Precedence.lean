import PulseSequencer.Proofs.Formula.Parsing

/-
# PulseSequencer.Proofs.Formula.Precedence -- the parser reads its whole grammar

Each level of the parser reads every formula of that level and stops behind it, if the
next token does not go on with it: `parsed_of_reads`.  Levels whose operators can
follow one another are read from the left, so for them it is also shown where the
parser stands when a formula of the level is only the left part of a longer one.
-/

namespace PulseSequencer.Formula

set_option autoImplicit false

/-! ## Where a formula ends -/

/-- Whether a token behind a formula goes on with it on some level. -/
def Level.continues : Level → Token → Bool
  | .subscript, .symbol .openBracket => true
  | .atom, .name s => !isKeyword s
  | .atom, .symbol .openParen => true
  | level, t => (level.operator? t).isSome

/-- What follows goes on with a formula neither on a level nor on a tighter one. -/
def Stops (level : Level) (rest : List Located) : Prop :=
  ∀ tight : Level, level.rank ≤ tight.rank → tight.continues (first rest).token = false

section Stops

variable {level : Level} {rest : List Located}

theorem Stops.mono {tighter : Level} (stops : Stops level rest) (le : level.rank ≤ tighter.rank) :
    Stops tighter rest :=
  fun tight above => stops tight (Nat.le_trans le above)

theorem Stops.next (stops : Stops level rest) : Stops level.next rest :=
  stops.mono (by cases level <;> decide)

theorem continues_of_operator {t : Token} {op : BinaryOp} (found : level.operator? t = some op) :
    level.continues t = true := by
  unfold Level.continues
  split <;> first | rfl | exact congrArg Option.isSome found | cases found

theorem Stops.operator (stops : Stops level rest) : level.operator? (first rest).token = none := by
  cases found : level.operator? (first rest).token with
  | none => rfl
  | some op =>
      have absent := stops level (Nat.le_refl _)
      rw [continues_of_operator found] at absent
      cases absent

/-- The operators of a level stop all tighter levels. -/
theorem stops_of_operator {t : Located} {op : BinaryOp}
    (found : level.operator? t.token = some op) : Stops level.next (t :: rest) := by
  obtain ⟨token, offset⟩ := t
  unfold Level.operator? at found
  split at found
  all_goals first
    | (rename_i same
       obtain rfl : token = _ := same
       exact fun tight above => by cases tight <;> first | rfl | exact absurd above (by decide))
    | cases found

/-- Closing brackets, separators and the end stop every level. -/
def Token.stopsAll : Token → Bool
  | .symbol .closeParen | .symbol .closeBracket | .symbol .closeBrace => true
  | .symbol .comma | .symbol .colon | .finish => true
  | _ => false

theorem stops_of_stopsAll {t : Located} (ends : t.token.stopsAll = true) :
    Stops level (t :: rest) := by
  obtain ⟨token, offset⟩ := t
  unfold Token.stopsAll at ends
  split at ends
  all_goals first
    | (rename_i same
       obtain rfl : token = _ := same
       exact fun tight _ => by cases tight <;> rfl)
    | cases ends

theorem stops_openBracket (offset : Nat) : Stops .atom (⟨.symbol .openBracket, offset⟩ :: rest) :=
  fun tight above => by cases tight <;> first | rfl | exact absurd above (by decide)

end Stops

/-! ## Where a formula begins -/

/-- A formula of some level can begin with a token: it neither closes a bracket nor is it
a prefix operator of a looser level. -/
def Part.Begins : Part → Token → Prop
  | .formula level _, t =>
      (∀ loose : Level, loose.rank < level.rank → loose.prefixOperator? t = none) ∧ 0 ≤ t.turn
  | _, _ => True

theorem prefixOperator?_name {level : Level} {s : String} (word : isKeyword s = false) :
    level.prefixOperator? (.name s) = none := by
  unfold Level.prefixOperator?
  split
  · rename_i same
    obtain rfl := Token.name.inj same
    cases word
  all_goals first | rfl | (rename_i same; cases same)

/-- A prefix operator belongs to one level. -/
theorem prefixOperator?_looser {level loose : Level} {t : Token} {op : UnaryOp}
    (found : level.prefixOperator? t = some op) (below : loose.rank < level.rank) :
    loose.prefixOperator? t = none := by
  unfold Level.prefixOperator? at found
  split at found
  all_goals first
    | cases loose <;> first | rfl | exact absurd below (by decide)
    | cases found

theorem Reads.first_append {P : String → Prop} {part : Part} {ts : List Located}
    (reads : Reads P part ts) (rest : List Located) : first (ts ++ rest) = first ts := by
  cases ts with
  | nil => exact absurd rfl reads.ne_nil
  | cons t more => rfl

theorem Reads.begins {P : String → Prop} (words : ∀ s, P s → isKeyword s = false) {part : Part}
    {ts : List Located} (reads : Reads P part ts) : part.Begins (first ts).token := by
  induction reads with
  | number is | quantity is =>
      cases is <;> exact ⟨fun loose _ => by cases loose <;> rfl, Int.le_refl 0⟩
  | text offset s => exact ⟨fun loose _ => by cases loose <;> rfl, Int.le_refl 0⟩
  | name offset word | call offset opens word =>
      exact ⟨fun loose _ => prefixOperator?_name (words _ word), Int.le_refl 0⟩
  | group | list | dict => exact ⟨fun loose _ => by cases loose <;> rfl, (by decide : (0 : Int) ≤ 1)⟩
  | index offset closes target _ ih _ =>
      rw [target.first_append]
      exact ih
  | unary offset found _ _ =>
      obtain ⟨_, _, plain, _⟩ := leads_of_prefixOperator found
      exact ⟨fun loose below => prefixOperator?_looser found below, Int.le_of_eq plain.symm⟩
  | @binary level token op offset left right ts us found first' _ ih _ =>
      rw [first'.first_append]
      refine ⟨fun loose below => ih.1 loose (Nat.lt_of_lt_of_le below ?_), ih.2⟩
      cases level <;> decide
  | tighter loose _ ih =>
      refine ⟨fun looser below => ih.1 looser ?_, ih.2⟩
      rw [Level.rank_next loose]
      omega
  | _ => trivial

/-! ## The levels of the parser -/

/-- Levels whose operators can follow one another; they are read from the left. -/
def Level.chains : Level → Bool
  | .disjunction | .conjunction | .sum | .product | .subscript => true
  | _ => false

/-- What the parser does behind a left operand of such a level. -/
def onward (fuel : Nat) (level : Level) (left : Formula) (ts : List Located) :
    Except FormulaError (Parsed Formula) :=
  if level = .subscript then parseSubscripts fuel left ts else parseMore fuel level left ts

/-- The depth of recursion that is enough to read a formula of some level. -/
def Enough (level : Level) (ts : List Located) (fuel : Nat) : Prop :=
  24 * ts.length ≤ fuel + 4 + 2 * level.rank

/-- The parser reads a part off the front of its tokens.  A formula of a chaining level can
also be the left part of a longer one. -/
def Part.Parsed : Part → List Located → Prop
  | .formula level f, ts =>
      (∀ fuel rest, Enough level ts fuel → Stops level rest →
        parseLevel fuel level (ts ++ rest) = .ok (f, rest)) ∧
      (level.chains = true → ∀ fuel rest, Enough level ts fuel → Stops level.next rest →
        ∃ fuel', fuel + 23 ≤ fuel' + 24 * ts.length ∧
          parseLevel fuel level (ts ++ rest) = onward fuel' level f rest)
  | .items close fs, ts => (Token.symbol close).turn = -1 → ∀ fuel rest,
      24 * ts.length ≤ fuel + 23 → parseItems fuel close (ts ++ rest) = .ok (fs, rest)
  | .pairs entries, ts => ∀ fuel rest,
      24 * ts.length ≤ fuel + 23 → parsePairs fuel (ts ++ rest) = .ok (entries, rest)

section Levels

variable {level : Level} {f : Formula} {ts rest : List Located} {fuel : Nat}

theorem parseLevel_chains (chains : level.chains = true) :
    parseLevel (fuel + 1) level ts = (do
      let (left, ts) ← parseLevel fuel level.next ts
      onward fuel level left ts) := by
  cases level <;> first | rfl | cases chains

/-- Nothing is added to a formula behind which nothing goes on. -/
theorem onward_stops (chains : level.chains = true) (stops : Stops level rest) :
    onward (fuel + 1) level f rest = .ok (f, rest) := by
  unfold onward
  split
  · rename_i same
    subst same
    have absent := stops .subscript (Nat.le_refl _)
    rw [parseSubscripts.eq_def]
    dsimp only
    split
    · cases absent
    · rfl
  · rw [parseMore, stops.operator]

theorem Enough.of_length {tighter : Level} {us : List Located} {fuel' : Nat}
    (enough : Enough level ts fuel)
    (le : fuel + 4 + 2 * level.rank + 24 * us.length ≤
      fuel' + 4 + 2 * tighter.rank + 24 * ts.length) : Enough tighter us fuel' := by
  unfold Enough at enough ⊢
  omega

/-- What is read as the left part of something longer is read where it ends, too. -/
theorem parsed_of_chains (chains : level.chains = true)
    (parts : ∀ fuel rest, Enough level ts fuel → Stops level.next rest →
      ∃ fuel', fuel + 23 ≤ fuel' + 24 * ts.length ∧
        parseLevel fuel level (ts ++ rest) = onward fuel' level f rest) :
    (Part.formula level f).Parsed ts := by
  refine ⟨fun fuel rest enough stops => ?_, fun _ => parts⟩
  obtain ⟨fuel', left, ran⟩ := parts fuel rest enough stops.next
  have bound : level.rank ≤ 8 := by cases level <;> first | decide | cases chains
  unfold Enough at enough
  obtain ⟨k, rfl⟩ := Nat.exists_eq_succ_of_ne_zero (show fuel' ≠ 0 by omega)
  rw [ran, onward_stops chains stops]

end Levels

/-! ## One rule of the grammar at a time -/

section Rules

variable {P : String → Prop} {level : Level} {f left right : Formula} {ts us rest : List Located}
  {token : Token} {offset fuel : Nat}

theorem Reads.length_pos {part : Part} (reads : Reads P part ts) : 0 < ts.length :=
  List.length_pos_iff.2 reads.ne_nil

/-- The recursion is never at its end where a formula is to be read. -/
theorem Enough.exists_succ (enough : Enough level ts fuel) (some' : 0 < ts.length) :
    ∃ k, fuel = k + 2 := by
  have bound : level.rank ≤ 9 := by cases level <;> decide
  unfold Enough at enough
  exact ⟨fuel - 2, by omega⟩

theorem parsed_next (inner : (Part.formula level.next f).Parsed ts) (loose : level ≠ .atom)
    (enough : Enough level ts (fuel + 2)) (stops : Stops level.next rest) :
    parseLevel fuel level.next (ts ++ rest) = .ok (f, rest) :=
  inner.1 fuel rest (enough.of_length (by rw [Level.rank_next loose]; omega)) stops

/-- A chain of one operand. -/
theorem parsed_first (chains : level.chains = true) (reads : Reads P (.formula level.next f) ts)
    (inner : (Part.formula level.next f).Parsed ts) : (Part.formula level f).Parsed ts := by
  have loose : level ≠ .atom := by rintro rfl; cases chains
  refine parsed_of_chains chains fun fuel rest enough stops => ?_
  have some' := reads.length_pos
  obtain ⟨k, rfl⟩ := enough.exists_succ some'
  refine ⟨k + 1, by omega, ?_⟩
  have ran := inner.1 (k + 1) rest
    (enough.of_length (by rw [Level.rank_next loose]; omega)) stops
  rw [parseLevel_chains chains, ran]
  rfl

/-- A chain with one more operand. -/
theorem parsed_chain {op : BinaryOp} (chains : level.chains = true)
    (found : level.operator? token = some op) (some' : 0 < us.length)
    (first' : (Part.formula level left).Parsed ts)
    (behind : (Part.formula level.next right).Parsed us) :
    (Part.formula level (.binary offset op left right)).Parsed (ts ++ ⟨token, offset⟩ :: us) := by
  refine parsed_of_chains chains fun fuel rest enough stops => ?_
  have below : level.rank ≤ 8 := by cases level <;> first | decide | cases chains
  have length : (ts ++ ⟨token, offset⟩ :: us).length = ts.length + us.length + 1 := by
    rw [List.length_append, List.length_cons]
    omega
  obtain ⟨fuel', left', ran⟩ := first'.2 chains fuel (⟨token, offset⟩ :: (us ++ rest))
    (enough.of_length (by omega)) (stops_of_operator found)
  unfold Enough at enough
  obtain ⟨k, rfl⟩ := Nat.exists_eq_succ_of_ne_zero (show fuel' ≠ 0 by omega)
  refine ⟨k, by omega, ?_⟩
  have onto : parseLevel k level.next (us ++ rest) = .ok (right, rest) := by
    refine behind.1 k rest ?_ stops
    rw [Enough, Level.rank_next (Level.loose_of_operator found)]
    omega
  have other : level ≠ .subscript := by rintro rfl; cases found
  rw [List.append_assoc, List.cons_append, ran, onward, onward, if_neg other, if_neg other,
    parseMore, show (first (_ :: (us ++ rest))).token = token from rfl, found]
  dsimp only
  rw [show (Located.mk token offset :: (us ++ rest)).drop 1 = us ++ rest from rfl, onto]
  rfl

/-- A target with one more key. -/
theorem parsed_index {closes : Nat} (some' : 0 < us.length)
    (first' : (Part.formula .subscript left).Parsed ts)
    (inside : (Part.formula .disjunction right).Parsed us) :
    (Part.formula .subscript (.index offset left right)).Parsed
      (ts ++ ⟨.symbol .openBracket, offset⟩ :: (us ++ [⟨.symbol .closeBracket, closes⟩])) := by
  refine parsed_of_chains rfl fun fuel rest enough stops => ?_
  have length : (ts ++ Located.mk (.symbol .openBracket) offset ::
      (us ++ [Located.mk (.symbol .closeBracket) closes])).length = ts.length + us.length + 2 := by
    simp only [List.length_append, List.length_cons, List.length_nil]
    omega
  obtain ⟨fuel', left', ran⟩ := first'.2 (rfl : Level.subscript.chains = true) fuel
    (⟨.symbol .openBracket, offset⟩ :: (us ++ ⟨.symbol .closeBracket, closes⟩ :: rest))
    (enough.of_length (by omega)) (stops_openBracket offset)
  unfold Enough at enough
  rw [show Level.subscript.rank = 8 from rfl] at enough
  obtain ⟨k, rfl⟩ := Nat.exists_eq_succ_of_ne_zero (show fuel' ≠ 0 by omega)
  refine ⟨k, by omega, ?_⟩
  have key : parseLevel k .disjunction (us ++ ⟨.symbol .closeBracket, closes⟩ :: rest) =
      .ok (right, ⟨.symbol .closeBracket, closes⟩ :: rest) := by
    refine inside.1 k _ ?_ (stops_of_stopsAll rfl)
    rw [Enough, show Level.disjunction.rank = 0 from rfl]
    omega
  simp only [List.append_assoc, List.cons_append, List.nil_append]
  rw [ran, onward, onward, if_pos rfl, if_pos rfl, parseSubscripts.eq_def]
  dsimp only
  rw [key]
  rfl

/-- A level with prefix operators, without one. -/
theorem parsed_unsigned (signs : level = .negation ∨ level = .sign)
    (words : ∀ s, P s → isKeyword s = false) (reads : Reads P (.formula level.next f) ts)
    (inner : (Part.formula level.next f).Parsed ts) : (Part.formula level f).Parsed ts := by
  have loose : level ≠ .atom := by rcases signs with rfl | rfl <;> exact fun same => by cases same
  refine ⟨fun fuel rest enough stops => ?_, fun chains => ?_⟩
  · obtain ⟨k, rfl⟩ := enough.exists_succ reads.length_pos
    have start : parseLevel (k + 2) level (ts ++ rest) = parsePrefixed (k + 1) level (ts ++ rest) := by
      rcases signs with rfl | rfl <;> rfl
    have absent := (reads.begins words).1 level (by rw [Level.rank_next loose]; omega)
    rw [start, parsePrefixed, reads.first_append, absent]
    exact parsed_next inner loose enough stops.next
  · rcases signs with rfl | rfl <;> cases chains

theorem parsed_unary {op : UnaryOp} (found : level.prefixOperator? token = some op)
    (behind : (Part.formula level f).Parsed ts) :
    (Part.formula level (.unary offset op f)).Parsed (⟨token, offset⟩ :: ts) := by
  have signs : level = .negation ∨ level = .sign := by
    cases level <;> first | exact .inl rfl | exact .inr rfl | cases found
  refine ⟨fun fuel rest enough stops => ?_, fun chains => ?_⟩
  · obtain ⟨k, rfl⟩ := enough.exists_succ (Nat.succ_pos _)
    have start : ∀ n us, parseLevel (n + 1) level us = parsePrefixed n level us := by
      rcases signs with rfl | rfl <;> exact fun _ _ => rfl
    have operand : parsePrefixed k level (ts ++ rest) = .ok (f, rest) := by
      rw [← start]
      exact behind.1 (k + 1) rest (enough.of_length (by rw [List.length_cons]; omega)) stops
    rw [start, List.cons_append, parsePrefixed,
      show (first (_ :: (ts ++ rest))).token = token from rfl, found]
    dsimp only
    rw [show (Located.mk token offset :: (ts ++ rest)).drop 1 = ts ++ rest from rfl, operand]
    rfl
  · rcases signs with rfl | rfl <;> cases chains

/-- A level with one operator at most, without one. -/
theorem parsed_single (once : level = .comparison ∨ level = .power)
    (reads : Reads P (.formula level.next f) ts)
    (inner : (Part.formula level.next f).Parsed ts) : (Part.formula level f).Parsed ts := by
  have loose : level ≠ .atom := by rcases once with rfl | rfl <;> exact fun same => by cases same
  refine ⟨fun fuel rest enough stops => ?_, fun chains => ?_⟩
  · obtain ⟨k, rfl⟩ := enough.exists_succ reads.length_pos
    have start : parseLevel (k + 2) level (ts ++ rest) =
        parseOnce (k + 1) level level.rightOperand (ts ++ rest) := by
      rcases once with rfl | rfl <;> rfl
    rw [start, parseOnce, parsed_next inner loose enough stops.next]
    dsimp only [bind, Except.bind]
    rw [stops.operator]
    rfl
  · rcases once with rfl | rfl <;> cases chains

theorem parsed_once {op : BinaryOp} (once : level = .comparison ∨ level = .power)
    (found : level.operator? token = some op) (some' : 0 < us.length)
    (first' : (Part.formula level.next left).Parsed ts)
    (behind : (Part.formula level.rightOperand right).Parsed us) :
    (Part.formula level (.binary offset op left right)).Parsed (ts ++ ⟨token, offset⟩ :: us) := by
  have loose := Level.loose_of_operator found
  have length : (ts ++ ⟨token, offset⟩ :: us).length = ts.length + us.length + 1 := by
    rw [List.length_append, List.length_cons]
    omega
  refine ⟨fun fuel rest enough stops => ?_, fun chains => ?_⟩
  · obtain ⟨k, rfl⟩ := enough.exists_succ (by omega)
    have start : parseLevel (k + 2) level (ts ++ ⟨token, offset⟩ :: (us ++ rest)) =
        parseOnce (k + 1) level level.rightOperand (ts ++ ⟨token, offset⟩ :: (us ++ rest)) := by
      rcases once with rfl | rfl <;> rfl
    have operand : parseLevel k level.rightOperand (us ++ rest) = .ok (right, rest) := by
      refine behind.1 k rest (enough.of_length ?_) ?_
      · have near : level.rank ≤ level.rightOperand.rank + 1 := by cases level <;> decide
        omega
      · -- no operator belongs to the level of signs, the one that is looser than its operator
        rcases once with rfl | rfl
        · exact stops.next
        · intro tight above
          cases tight <;> first | exact stops _ (by decide) | rfl | exact absurd above (by decide)
    rw [List.append_assoc, List.cons_append, start, parseOnce,
      parsed_next first' loose (enough.of_length (by omega)) (stops_of_operator found)]
    dsimp only [bind, Except.bind, first, List.headD_cons]
    rw [found]
    dsimp only
    rw [show (Located.mk token offset :: (us ++ rest)).drop 1 = us ++ rest from rfl, operand]
    rfl
  · rcases once with rfl | rfl <;> cases chains

/-- A number takes no unit where nothing goes on with it. -/
theorem withUnit_stops {magnitude : Float} (stops : Stops .atom rest) :
    withUnit magnitude f offset rest = .ok (f, rest) := by
  unfold withUnit
  split
  · rename_i s place behind
    have keyword : (!isKeyword s) = false := stops .atom (Nat.le_refl _)
    rw [if_pos (by simpa using keyword)]
  · rfl

theorem parsed_atom (run : ∀ fuel rest, 24 * ts.length ≤ fuel + 24 → Stops .atom rest →
    parseAtom (fuel + 1) (ts ++ rest) = .ok (f, rest)) (some' : 0 < ts.length) :
    (Part.formula .atom f).Parsed ts := by
  refine ⟨fun fuel rest enough stops => ?_, fun chains => by cases chains⟩
  obtain ⟨k, rfl⟩ := enough.exists_succ some'
  refine run k rest ?_ stops
  unfold Enough at enough
  rw [show Level.atom.rank = 9 from rfl] at enough
  omega

theorem parsed_number {magnitude : Float} (is : Numeric offset token magnitude f) :
    (Part.formula .atom f).Parsed [⟨token, offset⟩] := by
  refine parsed_atom (fun fuel rest _ stops => ?_) Nat.one_pos
  cases is <;> exact withUnit_stops stops

theorem parsed_quantity {magnitude : Float} {place : Nat} {s : String} {unit : PhysicalUnit}
    (is : Numeric offset token magnitude f) (word : isKeyword s = false)
    (known : PhysicalUnit.parse s = .ok unit) :
    (Part.formula .atom (.quantity offset magnitude unit)).Parsed
      [⟨token, offset⟩, ⟨.name s, place⟩] := by
  have taken : ∀ bare rest, withUnit magnitude bare offset (⟨.name s, place⟩ :: rest) =
      .ok (.quantity offset magnitude unit, rest) := by
    intro bare rest
    rw [withUnit, if_neg (by rw [word]; exact Bool.false_ne_true), known]
  refine parsed_atom (fun fuel rest _ _ => ?_) Nat.two_pos
  cases is <;> exact taken _ rest

theorem parsed_name (s : String) :
    (Part.formula .atom (.name offset s)).Parsed [⟨.name s, offset⟩] := by
  refine parsed_atom (fun fuel rest _ stops => ?_) Nat.one_pos
  have closed : startsWith .openParen rest = false := by
    have absent := stops .atom (Nat.le_refl _)
    unfold startsWith
    split
    · rename_i t place behind
      cases t <;> first | rfl | cases absent
    · rfl
  show (if startsWith .openParen rest = true then _ else _) = _
  rw [closed]
  rfl

theorem parsed_call {opens : Nat} {s : String} {args : List Formula}
    (inside : (Part.items .closeParen args).Parsed ts) :
    (Part.formula .atom (.call offset s args)).Parsed
      (⟨.name s, offset⟩ :: ⟨.symbol .openParen, opens⟩ :: ts) := by
  refine parsed_atom (fun fuel rest enough _ => ?_) (Nat.succ_pos _)
  have items : parseItems fuel .closeParen (ts ++ rest) = .ok (args, rest) :=
    inside rfl fuel rest (by rw [List.length_cons, List.length_cons] at enough; omega)
  exact bind_eq_ok.2 ⟨(args, rest), items, rfl⟩

theorem parsed_group {opens closes : Nat} (inside : (Part.formula .disjunction f).Parsed ts) :
    (Part.formula .atom f).Parsed
      (⟨.symbol .openParen, opens⟩ :: (ts ++ [⟨.symbol .closeParen, closes⟩])) := by
  refine parsed_atom (fun fuel rest enough _ => ?_) (Nat.succ_pos _)
  have inner : parseLevel fuel .disjunction (ts ++ ⟨.symbol .closeParen, closes⟩ :: rest) =
      .ok (f, ⟨.symbol .closeParen, closes⟩ :: rest) := by
    refine inside.1 fuel _ ?_ (stops_of_stopsAll rfl)
    simp only [List.length_append, List.length_cons, List.length_nil] at enough
    rw [Enough]
    omega
  rw [List.cons_append, List.append_assoc]
  show (do
    let (inner, rest) ← parseLevel fuel .disjunction
      (ts ++ Located.mk (.symbol .closeParen) closes :: rest)
    _) = _
  rw [inner]
  rfl

theorem parsed_list {items : List Formula} (inside : (Part.items .closeBracket items).Parsed ts) :
    (Part.formula .atom (.list offset items)).Parsed (⟨.symbol .openBracket, offset⟩ :: ts) := by
  refine parsed_atom (fun fuel rest enough _ => ?_) (Nat.succ_pos _)
  have ran : parseItems fuel .closeBracket (ts ++ rest) = .ok (items, rest) :=
    inside rfl fuel rest (by rw [List.length_cons] at enough; omega)
  exact bind_eq_ok.2 ⟨(items, rest), ran, rfl⟩

theorem parsed_dict {entries : List (Formula × Formula)} (inside : (Part.pairs entries).Parsed ts) :
    (Part.formula .atom (.dict offset entries)).Parsed (⟨.symbol .openBrace, offset⟩ :: ts) := by
  refine parsed_atom (fun fuel rest enough _ => ?_) (Nat.succ_pos _)
  have ran : parsePairs fuel (ts ++ rest) = .ok (entries, rest) :=
    inside fuel rest (by rw [List.length_cons] at enough; omega)
  exact bind_eq_ok.2 ⟨(entries, rest), ran, rfl⟩

end Rules

/-! ## Sequences -/

section Sequences

variable {P : String → Prop} {close : Symbol} {f key value : Formula} {fs : List Formula}
  {entries : List (Formula × Formula)} {ts us vs : List Located} {closes comma colon : Nat}

/-- A formula is not the end of a sequence. -/
theorem startsWith_of_reads (words : ∀ s, P s → isKeyword s = false)
    (reads : Reads P (.formula .disjunction f) ts) (closing : (Token.symbol close).turn = -1)
    (rest : List Located) : startsWith close (ts ++ rest) = false := by
  have above := (reads.begins words).2
  rw [← reads.first_append rest] at above
  cases starts : startsWith close (ts ++ rest) with
  | false => rfl
  | true =>
      obtain ⟨offset, shape⟩ := eq_cons_of_startsWith starts
      rw [shape, show (first (_ :: (ts ++ rest).drop 1)).token = .symbol close from rfl,
        closing] at above
      omega

theorem parsed_noItems : (Part.items close []).Parsed [⟨.symbol close, closes⟩] := by
  intro _ fuel rest enough
  obtain ⟨k, rfl⟩ := Nat.exists_eq_succ_of_ne_zero (show fuel ≠ 0 by
    rw [List.length_singleton] at enough
    omega)
  rw [List.singleton_append, parseItems, if_pos (startsWith_self close closes)]
  rfl

theorem parsed_noPairs : (Part.pairs []).Parsed [⟨.symbol .closeBrace, closes⟩] := by
  intro fuel rest enough
  obtain ⟨k, rfl⟩ := Nat.exists_eq_succ_of_ne_zero (show fuel ≠ 0 by
    rw [List.length_singleton] at enough
    omega)
  rw [List.singleton_append, parsePairs, if_pos (startsWith_self .closeBrace closes)]
  rfl

theorem afterItem_close {rest : List Located} :
    afterItem close (⟨.symbol close, closes⟩ :: rest) = .ok (⟨.symbol close, closes⟩ :: rest) := by
  rw [afterItem, if_pos (startsWith_self close closes)]

theorem afterItem_comma {rest : List Located} (closing : (Token.symbol close).turn = -1) :
    afterItem close (⟨.symbol .comma, comma⟩ :: rest) = .ok rest := by
  cases close <;> first | rfl | cases closing

/-- An item, and what follows it. -/
theorem parseItems_cons {fuel : Nat} {t : Located} {rest rest' : List Located}
    (words : ∀ s, P s → isKeyword s = false) (reads : Reads P (.formula .disjunction f) ts)
    (inner : (Part.formula .disjunction f).Parsed ts) (closing : (Token.symbol close).turn = -1)
    (enough : 24 * ts.length ≤ fuel + 4) (ends : t.token.stopsAll = true)
    (after : afterItem close (t :: rest) = .ok rest') :
    parseItems (fuel + 1) close (ts ++ t :: rest) = (do
      let (items, ts) ← parseItems fuel close rest'
      return (f :: items, ts)) := by
  have item := inner.1 fuel (t :: rest) enough (stops_of_stopsAll ends)
  rw [parseItems, startsWith_of_reads words reads closing, if_neg Bool.false_ne_true, item]
  show (do let ts ← afterItem close (t :: rest); _) = _
  rw [after]
  rfl

theorem stopsAll_of_turn (closing : (Token.symbol close).turn = -1) :
    (Token.symbol close).stopsAll = true := by
  cases close <;> first | rfl | cases closing

theorem parsed_lastItem (words : ∀ s, P s → isKeyword s = false)
    (reads : Reads P (.formula .disjunction f) ts)
    (inner : (Part.formula .disjunction f).Parsed ts) :
    (Part.items close [f]).Parsed (ts ++ [⟨.symbol close, closes⟩]) := by
  intro closing fuel rest enough
  rw [List.length_append, List.length_singleton] at enough
  have some' := reads.length_pos
  obtain ⟨k, rfl⟩ := Nat.exists_eq_succ_of_ne_zero (show fuel ≠ 0 by omega)
  have last : parseItems k close (⟨.symbol close, closes⟩ :: rest) = .ok ([], rest) :=
    parsed_noItems closing k rest (by rw [List.length_singleton]; omega)
  rw [List.append_assoc, List.singleton_append, parseItems_cons words reads inner closing (by omega)
    (stopsAll_of_turn closing) afterItem_close, last]
  rfl

theorem parsed_item (words : ∀ s, P s → isKeyword s = false)
    (reads : Reads P (.formula .disjunction f) ts)
    (inner : (Part.formula .disjunction f).Parsed ts) (some' : 0 < us.length)
    (others : (Part.items close fs).Parsed us) :
    (Part.items close (f :: fs)).Parsed (ts ++ ⟨.symbol .comma, comma⟩ :: us) := by
  intro closing fuel rest enough
  rw [List.length_append, List.length_cons] at enough
  obtain ⟨k, rfl⟩ := Nat.exists_eq_succ_of_ne_zero (show fuel ≠ 0 by omega)
  have more := others closing k rest (by omega)
  rw [List.append_assoc, List.cons_append, parseItems_cons words reads inner closing (by omega) rfl
    (afterItem_comma closing), more]
  rfl

/-- A key and its value, and what follows them. -/
theorem parsePairs_cons {fuel : Nat} {t : Located} {rest rest' : List Located}
    (words : ∀ s, P s → isKeyword s = false) (reads : Reads P (.formula .disjunction key) ts)
    (first' : (Part.formula .disjunction key).Parsed ts)
    (second : (Part.formula .disjunction value).Parsed us)
    (enough : 24 * (ts.length + us.length) ≤ fuel + 4) (ends : t.token.stopsAll = true)
    (after : afterItem .closeBrace (t :: rest) = .ok rest') :
    parsePairs (fuel + 1) (ts ++ ⟨.symbol .colon, colon⟩ :: (us ++ t :: rest)) = (do
      let (pairs, ts) ← parsePairs fuel rest'
      return ((key, value) :: pairs, ts)) := by
  have ran := first'.1 fuel (⟨.symbol .colon, colon⟩ :: (us ++ t :: rest))
    (by rw [Enough]; omega) (stops_of_stopsAll rfl)
  have ran' := second.1 fuel (t :: rest) (by rw [Enough]; omega) (stops_of_stopsAll ends)
  rw [parsePairs, startsWith_of_reads words reads rfl, if_neg Bool.false_ne_true, ran]
  show (do let (value, ts) ← parseLevel fuel .disjunction (us ++ t :: rest); _) = _
  rw [ran']
  show (do let ts ← afterItem .closeBrace (t :: rest); _) = _
  rw [after]
  rfl

theorem parsed_lastPair (words : ∀ s, P s → isKeyword s = false)
    (reads : Reads P (.formula .disjunction key) ts)
    (first' : (Part.formula .disjunction key).Parsed ts)
    (second : (Part.formula .disjunction value).Parsed us) :
    (Part.pairs [(key, value)]).Parsed
      (ts ++ ⟨.symbol .colon, colon⟩ :: (us ++ [⟨.symbol .closeBrace, closes⟩])) := by
  intro fuel rest enough
  simp only [List.length_append, List.length_cons, List.length_nil] at enough
  have some' := reads.length_pos
  obtain ⟨k, rfl⟩ := Nat.exists_eq_succ_of_ne_zero (show fuel ≠ 0 by omega)
  have last : parsePairs k (⟨.symbol .closeBrace, closes⟩ :: rest) = .ok ([], rest) :=
    parsed_noPairs k rest (by rw [List.length_singleton]; omega)
  simp only [List.append_assoc, List.cons_append, List.nil_append]
  rw [parsePairs_cons words reads first' second (by omega) rfl afterItem_close, last]
  rfl

theorem parsed_pair (words : ∀ s, P s → isKeyword s = false)
    (reads : Reads P (.formula .disjunction key) ts)
    (first' : (Part.formula .disjunction key).Parsed ts)
    (second : (Part.formula .disjunction value).Parsed us) (some' : 0 < vs.length)
    (others : (Part.pairs entries).Parsed vs) :
    (Part.pairs ((key, value) :: entries)).Parsed
      (ts ++ ⟨.symbol .colon, colon⟩ :: (us ++ ⟨.symbol .comma, comma⟩ :: vs)) := by
  intro fuel rest enough
  simp only [List.length_append, List.length_cons] at enough
  obtain ⟨k, rfl⟩ := Nat.exists_eq_succ_of_ne_zero (show fuel ≠ 0 by omega)
  have more := others k rest (by omega)
  simp only [List.append_assoc, List.cons_append]
  rw [parsePairs_cons words reads first' second (by omega) rfl (afterItem_comma rfl), more]
  rfl

end Sequences

/-! ## The whole grammar -/

/-- **Every part of the grammar is parsed**, if no operator word is a name in it. -/
theorem parsed_of_reads {P : String → Prop} (words : ∀ s, P s → isKeyword s = false) {part : Part}
    {ts : List Located} (reads : Reads P part ts) : part.Parsed ts := by
  induction reads with
  | number is => exact parsed_number is
  | quantity is word known => exact parsed_quantity is word known
  | text offset s => exact parsed_atom (fun _ _ _ _ => rfl) Nat.one_pos
  | name offset word => exact parsed_name _
  | call offset opens word _ ih => exact parsed_call ih
  | group opens closes _ ih => exact parsed_group ih
  | list offset _ ih => exact parsed_list ih
  | dict offset _ ih => exact parsed_dict ih
  | index offset closes _ inside ihTarget ihKey => exact parsed_index inside.length_pos ihTarget ihKey
  | unary offset found behind ih => exact parsed_unary found ih
  | @binary level token op offset left right ts us found first' behind ihLeft ihRight =>
      have some' := behind.length_pos
      cases level with
      | disjunction | conjunction | sum | product =>
          exact parsed_chain rfl found some' ihLeft ihRight
      | comparison => exact parsed_once (.inl rfl) found some' ihLeft ihRight
      | power => exact parsed_once (.inr rfl) found some' ihLeft ihRight
      | negation | sign | subscript | atom => cases found
  | @tighter level f ts loose inner ih =>
      cases level with
      | disjunction | conjunction | sum | product | subscript => exact parsed_first rfl inner ih
      | negation => exact parsed_unsigned (.inl rfl) words inner ih
      | sign => exact parsed_unsigned (.inr rfl) words inner ih
      | comparison => exact parsed_single (.inl rfl) inner ih
      | power => exact parsed_single (.inr rfl) inner ih
      | atom => exact absurd rfl loose
  | noItems close closes => exact parsed_noItems
  | lastItem closes first' ih => exact parsed_lastItem words first' ih
  | item comma first' others ihItem ih => exact parsed_item words first' ihItem others.length_pos ih
  | noPairs closes => exact parsed_noPairs
  | lastPair colon closes first' _ ihKey ihValue => exact parsed_lastPair words first' ihKey ihValue
  | pair colon comma first' _ others ihKey ihValue ih =>
      exact parsed_pair words first' ihKey ihValue others.length_pos ih

/-- **A text whose tokens are a formula of the grammar is parsed as that formula.** -/
theorem parse_of_reads {P : String → Prop} (words : ∀ s, P s → isKeyword s = false) {text : String}
    {f : Formula} {ts : List Located} {last : Nat}
    (tokens : tokenize text = .ok (ts ++ [⟨.finish, last⟩]))
    (reads : Reads P (.formula .disjunction f) ts) : parse text = .ok f := by
  have enough : Enough .disjunction ts (24 * ((ts ++ [Located.mk .finish last]).length + 1)) := by
    rw [Enough, List.length_append]
    omega
  have read := (parsed_of_reads words reads).1 _ [⟨.finish, last⟩] enough (stops_of_stopsAll rfl)
  exact bind_eq_ok.2 ⟨_, tokens, bind_eq_ok.2 ⟨_, read, rfl⟩⟩

end PulseSequencer.Formula
