import PulseSequencer.Proofs.Ppp.Programs

/-
# PulseSequencer.Proofs.Ppp.SimpleLines -- lines that hold one statement or declaration

An assignment, a call, `return`, `pass` and a declaration are read back from their lines, up
to the places of their parts.  Each takes just the tokens of its own line, so that what
stands behind the line does not matter.
-/

namespace PulseSequencer.Ppp

set_option autoImplicit false

/-! ## Tokens of pieces -/

section Spells

variable {src : Source} {ps qs : List Piece} {ts : List Token} {v : SourceFormula}
  {toks rest : List Token}

theorem Spells.split (spells : Spells src (ps ++ qs) ts) :
    ∃ us vs, ts = us ++ vs ∧ Spells src ps us ∧ Spells src qs vs := by
  induction ps generalizing ts with
  | nil => exact ⟨[], ts, rfl, .nil, spells⟩
  | cons p ps ih =>
      cases spells with
      | blank onward =>
          obtain ⟨us, vs, rfl, first, second⟩ := ih onward
          exact ⟨us, vs, rfl, .blank first, second⟩
      | word is onward =>
          obtain ⟨us, vs, rfl, first, second⟩ := ih onward
          exact ⟨_ :: us, vs, rfl, .word is first, second⟩
      | mark is onward =>
          obtain ⟨us, vs, rfl, first, second⟩ := ih onward
          exact ⟨_ :: us, vs, rfl, .mark is first, second⟩
      | formula printable is onward =>
          obtain ⟨us, vs, rfl, first, second⟩ := ih onward
          exact ⟨_, vs, (List.append_assoc ..).symm, .formula printable is first, second⟩

theorem Spells.of_nil (spells : Spells src [] ts) : ts = [] := by
  cases spells
  rfl

theorem Spells.of_blank (spells : Spells src (.blank :: ps) ts) : Spells src ps ts := by
  cases spells with
  | blank onward => exact onward

theorem Spells.of_word {s : String} (spells : Spells src (.word s :: ps) ts) :
    ∃ t ts', ts = t :: ts' ∧ t.kind = .name s ∧ Spells src ps ts' := by
  cases spells with
  | word is onward => exact ⟨_, _, rfl, is, onward⟩

theorem Spells.of_mark {m : Mark} (spells : Spells src (.mark m :: ps) ts) :
    ∃ t ts', ts = t :: ts' ∧ t.kind = .mark m ∧ Spells src ps ts' := by
  cases spells with
  | mark is onward => exact ⟨_, _, rfl, is, onward⟩

theorem Spells.of_formula (spells : Spells src (.formula v :: ps) ts) :
    ∃ toks ts', ts = toks ++ ts' ∧ v.Printable ∧ FormulaTokens src v toks ∧ Spells src ps ts' := by
  cases spells with
  | formula printable is onward => exact ⟨_, _, rfl, printable, is, onward⟩

end Spells

/-! ## Single tokens -/

section Tokens

variable {t : Token} {ts : List Token} {m : Mark}

theorem atMark_eq_false (other : (peek ts).kind ≠ .mark m) : atMark m ts = false :=
  beq_eq_false_iff_ne.2 other

theorem expect_cons (is : t.kind = .mark m) (some' : ts ≠ []) : expect m (t :: ts) = .ok ts := by
  rw [expect, show atMark m (t :: ts) = true from beq_iff_eq.2 is, if_pos rfl, skip_cons some']

theorem expectName_cons {name : String} (is : t.kind = .name name) (some' : ts ≠ []) :
    expectName (t :: ts) = .ok (name, ts) := by
  rw [expectName, show (peek (t :: ts)).kind = .name name from is]
  dsimp only
  rw [skip_cons some']

end Tokens

/-! ## Arguments -/

section Arguments

variable {src : Source} {toks rest : List Token}

theorem kind_ne_assign (u : Formula.Token) : u.kind ≠ .mark .assign := by
  cases u with
  | symbol s => cases s <;> exact fun same => by cases same
  | _ => exact fun same => by cases same

theorem kind_ne_closeParen {u : Formula.Token} (open' : 0 ≤ u.turn) :
    u.kind ≠ .mark .closeParen := by
  cases u with
  | symbol s => cases s <;> first | exact absurd open' (by decide) | exact fun same => by cases same
  | _ => exact fun same => by cases same

/-- The keyword in front of an argument, and the tokens of its value. -/
def keyword? (ts : List Token) : Option String × List Token :=
  match (peek ts).kind with
  | .name s => if atMark .assign (skip ts) then (some s, skip (skip ts)) else (none, ts)
  | _ => (none, ts)

theorem keyword?_none {ts : List Token} (noAssign : atMark .assign (skip ts) = false) :
    keyword? ts = (none, ts) := by
  unfold keyword?
  split
  · rw [noAssign, if_neg Bool.false_ne_true]
  · rfl

theorem keyword?_some {name : String} {ts : List Token} (is : (peek ts).kind = .name name)
    (assign : atMark .assign (skip ts) = true) : keyword? ts = (some name, skip (skip ts)) := by
  unfold keyword?
  rw [is]
  exact if_pos assign

/-- What follows an argument whose value was read. -/
def moreArguments (src : Source) (fuel : Nat) (seen : Bool) (a : Argument) (ts : List Token) :
    Except CompileError (Parsed (List Argument)) := do
  let ts ← if atMark .closeParen ts then pure ts else expect .comma ts
  let (more, ts) ← parseArguments src fuel (seen || a.keyword.isSome) ts
  return (a :: more, ts)

theorem parseArguments_value {keyword : Option String} {seen : Bool} {fuel : Nat}
    {ts ts' : List Token} {v : SourceFormula} (noClose : atMark .closeParen ts = false)
    (found : keyword? ts = (keyword, ts')) (allowed : keyword = none → seen = false)
    (read : parseFormula src [.comma, .closeParen] ts' = .ok (v, rest)) :
    parseArguments src (fuel + 1) seen ts = moreArguments src fuel seen ⟨keyword, v⟩ rest := by
  have whole : parseArguments src (fuel + 1) seen ts =
      if atMark .closeParen ts then .ok ([], skip ts)
      else if (keyword? ts).1.isNone ∧ seen = true then fail (keyword? ts).2 .positionalAfterKeyword
      else parseFormula src [.comma, .closeParen] (keyword? ts).2 >>= fun read =>
        moreArguments src fuel seen ⟨(keyword? ts).1, read.1⟩ read.2 := by
    rw [parseArguments]
    rfl
  have inOrder : ¬(keyword.isNone = true ∧ seen = true) := by
    rintro ⟨none', late⟩
    exact Bool.false_ne_true ((allowed (Option.isNone_iff_eq_none.1 none')).symm.trans late)
  rw [whole, noClose, if_neg Bool.false_ne_true, found, if_neg inOrder, read]
  rfl

/-- An argument is read up to the comma or parenthesis behind it. -/
theorem parseArguments_step {a : Argument} {seen : Bool} {t : Token}
    (spells : Spells src a.pieces toks) (allowed : a.keyword = none → seen = false)
    (halts : t.kind = .mark .comma ∨ t.kind = .mark .closeParen) (fuel : Nat) :
    ∃ start, parseArguments src (fuel + 1) seen (toks ++ t :: rest) =
      moreArguments src fuel seen ⟨a.keyword, ⟨a.value.formula, a.value.text, start⟩⟩
        (t :: rest) := by
  have known : ∀ m ∈ [Mark.comma, .closeParen], m ∈ ends := by decide
  have some' : t :: rest ≠ [] := List.cons_ne_nil t rest
  have halts' : Halts [.comma, .closeParen] (t :: rest) :=
    .inr (halts.elim (fun comma => ⟨_, by decide, comma⟩) fun close => ⟨_, by decide, close⟩)
  obtain ⟨keyword, value⟩ := a
  cases keyword with
  | none =>
      obtain ⟨toks, _, rfl, printable, tokens, spells⟩ := Spells.of_formula spells
      obtain rfl := spells.of_nil
      rw [List.append_nil]
      obtain ⟨start, read⟩ := parseFormula_of_tokens printable tokens known halts' some'
      obtain ⟨first, more, rfl, ⟨u, is, _, open'⟩, others⟩ := tokens.first printable
      have noAssign : atMark .assign (skip (first :: more ++ t :: rest)) = false := by
        refine atMark_eq_false fun same => ?_
        cases more with
        | nil =>
            have assign : t.kind = .mark .assign := same
            rcases halts with next | next <;> cases assign.symm.trans next
        | cons t' more =>
            obtain ⟨⟨u', is'⟩, _⟩ := List.forall_mem_cons.1 others
            exact kind_ne_assign u' (is'.symm.trans same)
      exact ⟨start, parseArguments_value (atMark_eq_false (is ▸ kind_ne_closeParen open'))
        (keyword?_none noAssign) allowed read⟩
  | some name =>
      obtain ⟨first, _, rfl, is, spells⟩ := Spells.of_word spells
      obtain ⟨assign, _, rfl, is', spells⟩ := spells.of_blank.of_mark
      obtain ⟨toks, _, rfl, printable, tokens, spells⟩ := spells.of_blank.of_formula
      obtain rfl := spells.of_nil
      rw [List.append_nil]
      obtain ⟨start, read⟩ := parseFormula_of_tokens printable tokens known halts' some'
      have behind : toks ++ t :: rest ≠ [] := List.append_ne_nil_of_right_ne_nil _ some'
      have found : keyword? (first :: assign :: toks ++ t :: rest) =
          (some name, toks ++ t :: rest) := by
        have named : (peek (first :: assign :: toks ++ t :: rest)).kind = .name name := is
        rw [keyword?_some named (beq_iff_eq.2 is')]
        exact congrArg _ (skip_cons behind)
      exact ⟨start, parseArguments_value (atMark_eq_false fun same => by cases is.symm.trans same)
        found allowed read⟩

theorem parseArguments_close {t : Token} {seen : Bool} (is : t.kind = .mark .closeParen)
    (some' : rest ≠ []) (fuel : Nat) :
    parseArguments src (fuel + 1) seen (t :: rest) = .ok ([], rest) := by
  have close : atMark .closeParen (t :: rest) = true := beq_iff_eq.2 is
  rw [parseArguments, close, if_pos rfl, skip_cons some']

theorem moreArguments_close {t : Token} {seen : Bool} {a : Argument}
    (is : t.kind = .mark .closeParen) (some' : rest ≠ []) (fuel : Nat) :
    moreArguments src (fuel + 1) seen a (t :: rest) = .ok ([a], rest) := by
  have close : atMark .closeParen (t :: rest) = true := beq_iff_eq.2 is
  rw [moreArguments, close, if_pos rfl]
  exact bind_eq_ok.2 ⟨_, rfl, bind_eq_ok.2 ⟨_, parseArguments_close is some' fuel, rfl⟩⟩

theorem moreArguments_comma {t : Token} {ts : List Token} {seen : Bool} {a : Argument}
    {more : List Argument} {fuel : Nat} (is : t.kind = .mark .comma) (some' : ts ≠ [])
    (read : parseArguments src fuel (seen || a.keyword.isSome) ts = .ok (more, rest)) :
    moreArguments src fuel seen a (t :: ts) = .ok (a :: more, rest) := by
  have noClose : atMark .closeParen (t :: ts) = false :=
    atMark_eq_false fun same => by cases is.symm.trans same
  rw [moreArguments, noClose, if_neg Bool.false_ne_true, expect_cons is some']
  exact bind_eq_ok.2 ⟨ts, rfl, bind_eq_ok.2 ⟨_, read, rfl⟩⟩

theorem argument_ne_nil {a : Argument} (spells : Spells src a.pieces toks) : toks ≠ [] := by
  obtain ⟨keyword, value⟩ := a
  cases keyword with
  | none =>
      obtain ⟨toks, _, rfl, printable, tokens, _⟩ := Spells.of_formula spells
      obtain ⟨t, more, rfl, _⟩ := tokens.first printable
      exact List.cons_ne_nil _ _
  | some name =>
      obtain ⟨t, _, rfl, _⟩ := Spells.of_word spells
      exact List.cons_ne_nil _ _

/-- **The arguments of a call are read back.** -/
theorem parseArguments_spells {arguments : List Argument} {seen : Bool} {fuel : Nat}
    (order : KeywordsLast arguments)
    (behind : seen = true → ∀ a ∈ arguments, a.keyword.isSome = true)
    (spells : Spells src (separated (arguments.map Argument.pieces) ++ [.mark .closeParen]) toks)
    (some' : rest ≠ []) (enough : (toks ++ rest).length ≤ fuel) :
    ∃ read, parseArguments src fuel seen (toks ++ rest) = .ok (read, rest) ∧
      read.map Argument.unplaced = arguments.map Argument.unplaced := by
  induction arguments generalizing seen fuel toks with
  | nil =>
      obtain ⟨t, _, rfl, is, spells⟩ := Spells.of_mark spells
      obtain rfl := spells.of_nil
      obtain ⟨fuel, rfl⟩ : ∃ k, fuel = k + 1 := ⟨fuel - 1, by simp at enough; omega⟩
      exact ⟨[], parseArguments_close is some' fuel, rfl⟩
  | cons a others ih =>
      obtain ⟨here, order⟩ := List.pairwise_cons.1 order
      have allowed : a.keyword = none → seen = false := by
        intro none'
        refine eq_false_of_ne_true fun late => ?_
        have keyword := behind late a (List.mem_cons_self ..)
        rw [none'] at keyword
        cases keyword
      have behind' : (seen || a.keyword.isSome) = true → ∀ b ∈ others, b.keyword.isSome = true := by
        intro late b there
        rcases Bool.or_eq_true_iff.1 late with late | keyword
        · exact behind late b (List.mem_cons_of_mem _ there)
        · exact here b there keyword
      cases others with
      | nil =>
          rw [List.map_singleton, separated, List.intercalate_singleton] at spells
          obtain ⟨us, _, rfl, first, last⟩ := spells.split
          obtain ⟨t, _, rfl, is, none'⟩ := last.of_mark
          obtain rfl := none'.of_nil
          have one := List.length_pos_iff.2 (argument_ne_nil first)
          rw [List.append_assoc, List.singleton_append] at enough ⊢
          obtain ⟨fuel, rfl⟩ : ∃ k, fuel = k + 2 := ⟨fuel - 2, by simp at enough; omega⟩
          obtain ⟨start, read⟩ := parseArguments_step first allowed (.inr is) (fuel + 1)
          exact ⟨_, read.trans (moreArguments_close is some' fuel), rfl⟩
      | cons next more =>
          rw [List.map_cons, List.map_cons, separated, List.intercalate_cons_cons,
            List.append_assoc, List.append_assoc] at spells
          obtain ⟨us, _, rfl, first, spells⟩ := spells.split
          obtain ⟨t, vs, rfl, is, spells⟩ := Spells.of_mark spells
          have one := List.length_pos_iff.2 (argument_ne_nil first)
          rw [List.append_assoc, List.cons_append] at enough ⊢
          obtain ⟨fuel, rfl⟩ : ∃ k, fuel = k + 1 := ⟨fuel - 1, by simp at enough; omega⟩
          obtain ⟨start, read⟩ := parseArguments_step first allowed (.inl is) fuel
          have bound : (vs ++ rest).length ≤ fuel := by
            simp only [List.length_append, List.length_cons] at enough ⊢
            omega
          obtain ⟨others, read', same⟩ := ih order behind' spells.of_blank bound
          refine ⟨_, read.trans (moreArguments_comma is ?_ read'), ?_⟩
          · exact List.append_ne_nil_of_right_ne_nil _ some'
          · rw [List.map_cons, same]
            rfl

end Arguments

/-! ## Simple statements -/

/-- Behind the lines of a statement stand none that would belong to it: no deeper ones, and
no further branches. -/
def Behind (depth : Nat) (more : List Line) : Prop :=
  ∀ l ∈ more.head?, l.depth ≤ depth ∧ (l.depth = depth → l.head ≠ "elif" ∧ l.head ≠ "else")

/-- A statement is read back from its lines, wherever they stand. -/
def Statement.Reparses (src : Source) (s : Statement) : Prop :=
  ∀ (depth : Nat) (more : List Line) (ts : List Token) (top : Bool) (fuel : Nat),
    Flat src depth (s.sourceLines depth ++ more) ts → Behind depth more → 4 * ts.length ≤ fuel →
      ∃ s' ts', parseLine src fuel top ts = .ok ([.statement s'], ts') ∧
        s'.unplaced = s.unplaced ∧ Flat src depth more ts' ∧ ts'.length < ts.length

section Simple

variable {src : Source} {ts toks rest : List Token} {t newline : Token} {name : String}
  {top : Bool}

/-- A line that is one simple statement or declaration. -/
theorem parseLine_simple {item : Item} (named : (peek ts).kind = .name name)
    (other : name ∉ ["def", "if", "while"])
    (read : parseSimpleItem src top ts = .ok (item, newline :: rest))
    (is : newline.kind = .newline) (some' : rest ≠ []) (fuel : Nat) :
    parseLine src (fuel + 1) top ts = .ok ([item], rest) := by
  have items : parseSimpleItems src top (ts.length + 1) ts = .ok ([item], newline :: rest) := by
    have noMore : atMark .semicolon (newline :: rest) = false :=
      atMark_eq_false fun same => by cases is.symm.trans same
    rw [parseSimpleItems]
    refine bind_eq_ok.2 ⟨_, read, ?_⟩
    dsimp only
    rw [noMore]
    rfl
  have ended : endLine src (newline :: rest) = .ok rest := by
    rw [endLine, show (peek (newline :: rest)).kind = .newline from is, skip_cons some']
  simp only [List.mem_cons, not_or] at other
  obtain ⟨noDef, noIf, noWhile, _⟩ := other
  rw [parseLine, named]
  split
  · rename_i same
    exact absurd (TokenKind.name.inj same) noDef
  · rename_i same
    exact absurd (TokenKind.name.inj same) noIf
  · rename_i same
    exact absurd (TokenKind.name.inj same) noWhile
  · exact bind_eq_ok.2 ⟨_, items, bind_eq_ok.2 ⟨_, ended, rfl⟩⟩

theorem declaration?_eq_none (named : (peek ts).kind = .name name)
    (other : DeclarationKind.ofKeyword? name = none ∨
      ∃ m, (peek (skip ts)).kind = .mark m ∧ m ≠ .less) : declaration? ts = none := by
  rw [declaration?, named]
  dsimp only
  rcases other with none' | ⟨m, mark, noLess⟩
  · rw [none']
  · rw [mark]
    split
    · rename_i same
      cases same
    · rename_i same
      exact absurd (TokenKind.mark.inj same) noLess
    · rfl

/-- What a line holds decides what it is read as. -/
theorem parseLine_flat {Q : Item → Prop} {depth fuel : Nat} {pieces : List Piece}
    {more : List Line} (other : name ∉ ["def", "if", "while"])
    (read : ∀ t toks newline rest, t.kind = .name name → Spells src pieces toks →
      newline.kind = .newline → rest ≠ [] → ∃ item, Q item ∧
        parseSimpleItem src top (t :: (toks ++ newline :: rest)) = .ok (item, newline :: rest))
    (flat : Flat src depth (⟨depth, name, pieces⟩ :: more) ts) (enough : 4 * ts.length ≤ fuel) :
    ∃ item ts', parseLine src fuel top ts = .ok ([item], ts') ∧ Q item ∧
      Flat src depth more ts' ∧ ts'.length < ts.length := by
  obtain ⟨t, toks, newline, rest, rfl, is, spells, is', flat⟩ := Flat.cons flat rfl
  obtain ⟨item, holds, one⟩ := read t toks newline rest is spells is' flat.ne_nil
  have bound : rest.length < (t :: (toks ++ newline :: rest)).length := by
    simp only [List.length_cons, List.length_append]
    omega
  have named : (peek (t :: (toks ++ newline :: rest))).kind = .name name := is
  obtain ⟨fuel, rfl⟩ : ∃ k, fuel = k + 1 := ⟨fuel - 1, by omega⟩
  exact ⟨item, rest, parseLine_simple named other one is' flat.ne_nil fuel, holds, flat, bound⟩

/-- What a simple statement is read back as decides what its line is read back as. -/
theorem reparses_simple {s : Statement} {pieces : List Piece}
    (line : ∀ depth, s.sourceLines depth = [⟨depth, name, pieces⟩])
    (other : name ∉ ["def", "if", "while"])
    (read : ∀ t toks newline rest, t.kind = .name name → Spells src pieces toks →
      newline.kind = .newline → rest ≠ [] →
        declaration? (t :: (toks ++ newline :: rest)) = none ∧
          ∃ s', parseSimple src (t :: (toks ++ newline :: rest)) = .ok (s', newline :: rest) ∧
            s'.unplaced = s.unplaced) : s.Reparses src := by
  intro depth more ts top fuel flat _ enough
  rw [line] at flat
  obtain ⟨_, ts', parsed, ⟨s', rfl, same⟩, onward⟩ := parseLine_flat
    (Q := fun item => ∃ s', item = .statement s' ∧ s'.unplaced = s.unplaced) other
    (fun t toks newline rest is spells is' some' => by
      obtain ⟨none', s', simple, same⟩ := read t toks newline rest is spells is' some'
      refine ⟨_, ⟨s', rfl, same⟩, ?_⟩
      rw [parseSimpleItem, none']
      exact bind_eq_ok.2 ⟨_, simple, rfl⟩) flat enough
  exact ⟨s', ts', parsed, same, onward⟩

theorem reparses_pass (position : Position) : (Statement.pass position).Reparses src := by
  refine reparses_simple (fun _ => rfl) (by decide)
    fun t toks newline rest is spells is' some' => ?_
  obtain rfl := spells.of_nil
  refine ⟨declaration?_eq_none is (.inl rfl), .pass t.position, ?_, rfl⟩
  rw [parseSimple, show (peek (t :: ([] ++ newline :: rest))).kind = .name "pass" from is]
  rfl

theorem atEnd_of_newline (is : newline.kind = .newline) : atEnd (newline :: rest) = true := by
  rw [atEnd, show (peek (newline :: rest)).kind = .newline from is]

/-- No statement ends where a formula starts. -/
theorem atEnd_formula {v : SourceFormula} (printable : v.Printable)
    (tokens : FormulaTokens src v toks) : atEnd (toks ++ rest) = false := by
  obtain ⟨t, more, rfl, ⟨u, is, dark, _⟩, _⟩ := tokens.first printable
  rw [atEnd, show (peek (t :: more ++ rest)).kind = u.kind from is]
  cases u with
  | finish => exact absurd rfl dark
  | symbol s => cases s <;> rfl
  | _ => rfl

/-- A formula in front of a token that ends it. -/
theorem parseFormula_before {v : SourceFormula} {stops : List Mark} (printable : v.Printable)
    (tokens : FormulaTokens src v toks) (known : ∀ m ∈ stops, m ∈ ends)
    (halts : t.kind = .newline ∨ ∃ m ∈ stops, t.kind = .mark m) (rest : List Token) :
    ∃ v', v'.unplaced = v.unplaced ∧
      parseFormula src stops (toks ++ t :: rest) = .ok (v', t :: rest) := by
  have halts' : Halts stops (t :: rest) := halts
  obtain ⟨start, read⟩ :=
    parseFormula_of_tokens printable tokens known halts' (List.cons_ne_nil t rest)
  exact ⟨⟨v.formula, v.text, start⟩, rfl, read⟩

theorem reparses_return (position : Position) {value : Option SourceFormula} :
    (Statement.return position value).Reparses src := by
  cases value with
  | none =>
      refine reparses_simple (fun _ => rfl) (by decide)
        fun t toks newline rest is spells is' some' => ?_
      obtain rfl := spells.of_nil
      refine ⟨declaration?_eq_none is (.inl rfl), .return t.position none, ?_, rfl⟩
      rw [parseSimple, show (peek (t :: ([] ++ newline :: rest))).kind = .name "return" from is]
      exact if_pos (atEnd_of_newline is')
  | some v =>
      refine reparses_simple (fun _ => rfl) (by decide)
        fun t toks newline rest is spells is' some' => ?_
      obtain ⟨toks, _, rfl, printable, tokens, spells⟩ := spells.of_blank.of_formula
      obtain rfl := spells.of_nil
      rw [List.append_nil]
      have known : ∀ m ∈ [Mark.semicolon], m ∈ ends := by decide
      obtain ⟨v', same, read⟩ := parseFormula_before printable tokens known (.inl is') rest
      refine ⟨declaration?_eq_none is (.inl rfl), .return t.position (some v'), ?_, ?_⟩
      · rw [parseSimple, show (peek (t :: (toks ++ newline :: rest))).kind = .name "return" from is]
        dsimp only
        rw [skip_cons (by simp), atEnd_formula printable tokens, if_neg Bool.false_ne_true]
        exact bind_eq_ok.2 ⟨_, read, rfl⟩
      · rw [Statement.unplaced, Statement.unplaced, Option.map_some, Option.map_some, same]

theorem IsHead.notLine (head : IsHead name) : name ∉ ["def", "if", "while"] := by
  intro there
  refine head.2.1 ?_
  simp only [List.mem_cons, List.not_mem_nil, or_false] at there
  rcases there with rfl | rfl | rfl <;> decide

theorem parseSimple_head (head : IsHead name) (is : t.kind = .name name) (ts : List Token) :
    parseSimple src (t :: ts) = parseNamed src t.position name (skip (t :: ts)) := by
  obtain ⟨_, noWord, noMnemonic⟩ := head
  rw [parseSimple, show (peek (t :: ts)).kind = .name name from is]
  split
  · rename_i same
    exact absurd (by rw [TokenKind.name.inj same]; decide) noWord
  · rename_i same
    exact absurd (by rw [TokenKind.name.inj same]; decide) noWord
  · rename_i same
    obtain rfl := TokenKind.name.inj same
    rw [noMnemonic, if_neg Bool.false_ne_true]
    rfl
  · rename_i other
    exact absurd rfl (other name)

theorem parseNamed_assign {op : Option AssignOp} {v : SourceFormula} {position : Position}
    (is : t.kind = .mark (assignMark op))
    (read : parseFormula src [.semicolon] (skip (t :: ts)) = .ok (v, rest)) :
    parseNamed src position name (t :: ts) = .ok (.assign position name op v, rest) := by
  unfold parseNamed
  rw [show (peek (t :: ts)).kind = .mark (assignMark op) from is]
  cases op with
  | none => exact bind_eq_ok.2 ⟨_, read, rfl⟩
  | some op => cases op <;> exact bind_eq_ok.2 ⟨_, read, rfl⟩

theorem assignMark_ne_less (op : Option AssignOp) : assignMark op ≠ .less := by
  cases op with
  | none => exact fun same => by cases same
  | some op => cases op <;> exact fun same => by cases same

theorem reparses_assign (position : Position) {op : Option AssignOp} {value : SourceFormula}
    (head : IsHead name) : (Statement.assign position name op value).Reparses src := by
  refine reparses_simple (fun _ => rfl) head.notLine
    fun t toks newline rest is spells is' some' => ?_
  obtain ⟨mark, _, rfl, marked, spells⟩ := spells.of_blank.of_mark
  obtain ⟨toks, _, rfl, printable, tokens, spells⟩ := spells.of_blank.of_formula
  obtain rfl := spells.of_nil
  rw [List.append_nil, List.cons_append]
  have known : ∀ m ∈ [Mark.semicolon], m ∈ ends := by decide
  obtain ⟨v', same, read⟩ := parseFormula_before printable tokens known (.inl is') rest
  refine ⟨declaration?_eq_none is (.inr ⟨_, marked, assignMark_ne_less op⟩),
    .assign t.position name op v', ?_, ?_⟩
  · have some'' : toks ++ newline :: rest ≠ [] := by simp
    rw [parseSimple_head head is]
    exact parseNamed_assign marked (by rwa [skip_cons some''])
  · rw [Statement.unplaced, Statement.unplaced, same]

theorem reparses_call (position : Position) {arguments : List Argument}
    (head : IsHead name) (order : KeywordsLast arguments) :
    (Statement.call position name arguments).Reparses src := by
  refine reparses_simple (fun _ => rfl) head.notLine
    fun t toks newline rest is spells is' some' => ?_
  obtain ⟨mark, toks, rfl, marked, spells⟩ := spells.of_mark
  have behind : newline :: rest ≠ [] := List.cons_ne_nil newline rest
  have nested : toks ++ newline :: rest ≠ [] := List.append_ne_nil_of_right_ne_nil _ behind
  have early : false = true → ∀ a ∈ arguments, a.keyword.isSome = true := fun late => by cases late
  have enough : (toks ++ newline :: rest).length ≤ (mark :: (toks ++ newline :: rest)).length :=
    Nat.le_succ _
  obtain ⟨read, parsed, same⟩ := parseArguments_spells order early spells behind enough
  refine ⟨declaration?_eq_none is (.inr ⟨_, marked, fun same => by cases same⟩),
    .call t.position name read, ?_, ?_⟩
  · have opens : (peek (mark :: (toks ++ newline :: rest))).kind = .mark .openParen := marked
    rw [parseSimple_head head is]
    show parseNamed src t.position name (mark :: (toks ++ newline :: rest)) = _
    rw [parseNamed, opens]
    dsimp only
    rw [skip_cons nested]
    exact bind_eq_ok.2 ⟨_, parsed, rfl⟩
  · rw [Statement.unplaced, Statement.unplaced, same]

end Simple

/-! ## Declarations -/

section Declarations

variable {src : Source} {ts toks rest : List Token} {t newline : Token}

theorem ofKeyword?_keyword (kind : DeclarationKind) :
    DeclarationKind.ofKeyword? kind.keyword = some kind := by
  cases kind <;> rfl

/-- A declaring keyword stands in front of a name, or of the encoding of a parameter. -/
theorem declaration?_eq_some {kind : DeclarationKind}
    (named : (peek ts).kind = .name kind.keyword)
    (next : (∃ name, (peek (skip ts)).kind = .name name) ∨
      kind = .parameter ∧ (peek (skip ts)).kind = .mark .less) :
    declaration? ts = some kind := by
  rw [declaration?, named]
  dsimp only
  rw [ofKeyword?_keyword]
  rcases next with ⟨name, is⟩ | ⟨rfl, is⟩ <;> rw [is]

theorem parseEncoding_spells {kind : DeclarationKind} {encoding : Option String} {name : String}
    (spells : Spells src (encodingPieces encoding) toks)
    (only : ∀ name ∈ encoding, kind = .parameter) (is : t.kind = .name name) (rest : List Token) :
    parseEncoding kind (toks ++ t :: rest) = .ok (encoding, t :: rest) := by
  unfold parseEncoding
  cases encoding with
  | none =>
      obtain rfl := spells.of_nil
      have noLess : atMark .less (t :: rest) = false :=
        atMark_eq_false fun same => by cases is.symm.trans same
      rw [List.nil_append, noLess, if_neg fun both => Bool.false_ne_true both.2]
  | some encoding =>
      obtain rfl := only encoding rfl
      obtain ⟨less, _, rfl, less', spells⟩ := Spells.of_mark spells
      obtain ⟨word, _, rfl, word', spells⟩ := spells.of_word
      obtain ⟨greater, _, rfl, greater', spells⟩ := spells.of_mark
      obtain rfl := spells.of_nil
      have atLess : atMark .less (less :: word :: greater :: t :: rest) = true :=
        beq_iff_eq.2 less'
      show (if _ ∧ atMark .less (less :: word :: greater :: t :: rest) = true then _ else _) = _
      rw [if_pos ⟨rfl, atLess⟩]
      have some' : greater :: t :: rest ≠ [] := List.cons_ne_nil _ _
      have some'' : t :: rest ≠ [] := List.cons_ne_nil _ _
      refine bind_eq_ok.2 ⟨_, expectName_cons word' some', ?_⟩
      exact bind_eq_ok.2 ⟨_, expect_cons greater' some'', rfl⟩

theorem parseValue_spells {value : Option SourceFormula}
    (spells : Spells src (valuePieces value) toks) (halts : Halts [.comma, .semicolon] rest)
    (some' : rest ≠ []) : ∃ read, parseValue src (toks ++ rest) = .ok (read, rest) ∧
      read.map SourceFormula.unplaced = value.map SourceFormula.unplaced := by
  unfold parseValue
  cases value with
  | none =>
      obtain rfl := spells.of_nil
      have noAssign : atMark .assign rest = false := by
        refine atMark_eq_false fun same => ?_
        rcases halts with is | ⟨m, there, is⟩
        · cases is.symm.trans same
        · obtain rfl := TokenKind.mark.inj (is.symm.trans same)
          exact absurd there (by decide)
      exact ⟨none, by rw [List.nil_append, noAssign, if_neg Bool.false_ne_true], rfl⟩
  | some v =>
      obtain ⟨assign, _, rfl, is, spells⟩ := (Spells.of_blank spells).of_mark
      obtain ⟨toks, _, rfl, printable, tokens, spells⟩ := spells.of_blank.of_formula
      obtain rfl := spells.of_nil
      rw [List.append_nil, List.cons_append]
      have known : ∀ m ∈ [Mark.comma, .semicolon], m ∈ ends := by decide
      obtain ⟨start, read⟩ := parseFormula_of_tokens printable tokens known halts some'
      have atAssign : atMark .assign (assign :: (toks ++ rest)) = true := beq_iff_eq.2 is
      refine ⟨some ⟨v.formula, v.text, start⟩, ?_, rfl⟩
      rw [if_pos atAssign, skip_cons (List.append_ne_nil_of_right_ne_nil _ some')]
      exact bind_eq_ok.2 ⟨_, read, rfl⟩

/-- Behind a value stand attributes or the end of the line. -/
theorem halts_attributes {attributes : List (String × Position)}
    (spells : Spells src (attributePieces attributes) toks) (is : newline.kind = .newline) :
    Halts [.comma, .semicolon] (toks ++ newline :: rest) := by
  cases attributes with
  | nil =>
      obtain rfl := spells.of_nil
      exact .inl is
  | cons a others =>
      obtain ⟨comma, _, rfl, is', _⟩ := Spells.of_mark spells
      exact .inr ⟨.comma, by decide, is'⟩

theorem parseAttributes_spells {attributes : List (String × Position)} {fuel : Nat}
    (spells : Spells src (attributePieces attributes) toks) (is : newline.kind = .newline)
    (enough : toks.length ≤ fuel) : ∃ read,
      parseAttributes fuel (toks ++ newline :: rest) = .ok (read, newline :: rest) ∧
        read.map (fun a => (a.1, nowhere)) = attributes.map fun a => (a.1, nowhere) := by
  induction attributes generalizing fuel toks with
  | nil =>
      obtain rfl := spells.of_nil
      have noComma : atMark .comma (newline :: rest) = false :=
        atMark_eq_false fun same => by cases is.symm.trans same
      refine ⟨[], ?_, rfl⟩
      cases fuel with
      | zero => rfl
      | succ fuel =>
          rw [List.nil_append, parseAttributes, noComma, if_neg Bool.false_ne_true]
  | cons a others ih =>
      obtain ⟨comma, _, rfl, comma', spells⟩ := Spells.of_mark spells
      obtain ⟨word, toks, rfl, word', spells⟩ := spells.of_blank.of_word
      obtain ⟨fuel, rfl⟩ : ∃ k, fuel = k + 1 := ⟨fuel - 1, by simp at enough; omega⟩
      have bound : toks.length ≤ fuel := by
        simp only [List.length_cons] at enough
        omega
      obtain ⟨read, parsed, same⟩ := ih spells bound
      have atComma : atMark .comma (comma :: word :: (toks ++ newline :: rest)) = true :=
        beq_iff_eq.2 comma'
      have some' : toks ++ newline :: rest ≠ [] := by simp
      refine ⟨(a.1, word.position) :: read, ?_, ?_⟩
      · show parseAttributes (fuel + 1) (comma :: word :: (toks ++ newline :: rest)) = _
        rw [parseAttributes, atComma, if_pos rfl]
        exact bind_eq_ok.2 ⟨_, expectName_cons word' some', bind_eq_ok.2 ⟨_, parsed, rfl⟩⟩
      · rw [List.map_cons, List.map_cons, same]

/-- **A declaration is read back.** -/
theorem parseDeclaration_spells {d : Declaration} (regular : (Item.declaration d).Regular)
    (named : t.kind = .name d.kind.keyword) (spells : Spells src d.pieces toks)
    (is : newline.kind = .newline) :
    declaration? (t :: (toks ++ newline :: rest)) = some d.kind ∧
      ∃ d', parseDeclaration src d.kind (t :: (toks ++ newline :: rest)) =
        .ok (d', newline :: rest) ∧ d'.unplaced = d.unplaced := by
  obtain ⟨es, _, rfl, encoding, spells⟩ := Spells.split spells
  obtain ⟨word, _, rfl, word', spells⟩ := spells.of_blank.of_word
  obtain ⟨vs, attrs, rfl, value, attributes⟩ := spells.split
  have text : t :: (es ++ word :: (vs ++ attrs) ++ newline :: rest) =
      t :: (es ++ word :: (vs ++ (attrs ++ newline :: rest))) := by simp
  have some' : es ++ word :: (vs ++ (attrs ++ newline :: rest)) ≠ [] := by simp
  have onward : vs ++ (attrs ++ newline :: rest) ≠ [] := by simp
  have ending : attrs ++ newline :: rest ≠ [] := by simp
  obtain ⟨needed, only⟩ := regular
  rw [text]
  refine ⟨declaration?_eq_some named ?_, ?_⟩
  · rw [skip_cons some']
    cases there : d.encoding with
    | none =>
        rw [there] at encoding
        obtain rfl := encoding.of_nil
        exact .inl ⟨_, word'⟩
    | some name =>
        rw [there] at encoding
        obtain ⟨less, _, rfl, less', _⟩ := Spells.of_mark encoding
        exact .inr ⟨only name there, less'⟩
  · obtain ⟨value', readValue, sameValue⟩ :=
      parseValue_spells value (halts_attributes attributes is) ending
    have enough : attrs.length ≤ (attrs ++ newline :: rest).length := by simp
    obtain ⟨attributes', readAttributes, sameAttributes⟩ :=
      parseAttributes_spells attributes is enough
    have given : ¬(value'.isNone = true ∧ d.kind.needsValue = true) := by
      rintro ⟨none', asked⟩
      have none'' : value'.map SourceFormula.unplaced = none := by
        rw [Option.isNone_iff_eq_none.1 none', Option.map_none]
      exact needed asked (Option.map_eq_none_iff.1 (sameValue.symm.trans none''))
    refine ⟨⟨d.kind, d.name, value', attributes', d.encoding, t.position⟩, ?_, ?_⟩
    · unfold parseDeclaration
      rw [skip_cons some', parseEncoding_spells encoding only word']
      refine bind_eq_ok.2 ⟨_, rfl, bind_eq_ok.2 ⟨_, expectName_cons word' onward, ?_⟩⟩
      refine bind_eq_ok.2 ⟨_, readValue, ?_⟩
      dsimp only
      rw [if_neg given]
      exact bind_eq_ok.2 ⟨_, readAttributes, rfl⟩
    · rw [Declaration.unplaced, Declaration.unplaced, sameValue, sameAttributes]

end Declarations

end PulseSequencer.Ppp
