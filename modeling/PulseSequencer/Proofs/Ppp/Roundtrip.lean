import PulseSequencer.Proofs.Ppp.Parsing
import PulseSequencer.Proofs.Ppp.Programs
import PulseSequencer.Proofs.Ppp.SimpleLines
import Mathlib

/-
# PulseSequencer.Proofs.Ppp.Roundtrip -- programs that are read as they were laid out

The parser reads a program back from the text that it was laid out in, up to the places of
its parts, just if the items of the program are regular: `parse_layOut_iff`.  A block takes
its lines and the dedent behind them, and a branching all its branches, since what stands
behind it is no deeper and starts no branch (`Behind`).

The parser rejects repeated parameters, constants and exit codes without a value, and an
encoding anywhere but at a parameter.  So every item that it returns is regular:
`regular_of_parse`.
-/

namespace PulseSequencer.Ppp

set_option autoImplicit false

/-! ## Programs that no text is read as -/

section Regular

variable {src : Source} {ts rest : List Token} {item : Item} {items : List Item} {fuel : Nat}
  {top : Bool}

theorem regular_unplaced : item.unplaced.Regular ↔ item.Regular := by
  cases item with
  | declaration d =>
      have none' : d.value.map SourceFormula.unplaced ≠ none ↔ d.value ≠ none :=
        not_congr Option.map_eq_none_iff
      exact and_congr (imp_congr Iff.rfl none') Iff.rfl
  | procedure | statement => exact Iff.rfl

theorem distinct_of_parseParameters {known parameters : List String} (distinct : known.Nodup)
    (parsed : parseParameters fuel known ts = .ok (parameters, rest)) : parameters.Nodup := by
  induction fuel generalizing known ts with
  | zero =>
      obtain ⟨rfl, rfl⟩ := Prod.mk.inj (Except.ok.inj parsed)
      exact distinct
  | succ fuel ih =>
      rw [parseParameters] at parsed
      split at parsed
      · obtain ⟨rfl, rfl⟩ := Prod.mk.inj (Except.ok.inj parsed)
        exact distinct
      · obtain ⟨⟨name, ts₁⟩, _, onward⟩ := bind_eq_ok.1 parsed
        dsimp only at onward
        split at onward
        · cases onward
        · rename_i new
          have distinct' : (known ++ [name]).Nodup :=
            List.nodup_append.2 ⟨distinct, List.nodup_cons.2 ⟨List.not_mem_nil, List.nodup_nil⟩,
              fun x there y there' same =>
                new (List.mem_singleton.1 there' ▸ same ▸ there)⟩
          split at onward
          · obtain ⟨ts₂, _, further⟩ := bind_eq_ok.1 onward
            exact ih distinct' further
          · obtain ⟨ts₂, _, further⟩ := bind_eq_ok.1 onward
            exact ih distinct' further

theorem regular_of_parseDeclaration {kind : DeclarationKind} {d : Declaration}
    (parsed : parseDeclaration src kind ts = .ok (d, rest)) : (Item.declaration d).Regular := by
  unfold parseDeclaration at parsed
  obtain ⟨⟨encoding, ts₁⟩, encoded, onward⟩ := bind_eq_ok.1 parsed
  obtain ⟨⟨name, ts₂⟩, _, onward⟩ := bind_eq_ok.1 onward
  obtain ⟨⟨value, ts₃⟩, _, onward⟩ := bind_eq_ok.1 onward
  have only : ∀ name ∈ encoding, kind = .parameter := by
    unfold parseEncoding at encoded
    split at encoded
    · rename_i both
      exact fun _ _ => both.1
    · obtain ⟨rfl, _⟩ := Prod.mk.inj (Except.ok.inj encoded)
      exact fun _ none' => by cases none'
  dsimp only at onward
  split at onward
  · cases onward
  · rename_i given
    obtain ⟨⟨attributes, ts₄⟩, _, result⟩ := bind_eq_ok.1 onward
    obtain ⟨rfl, rfl⟩ := Prod.mk.inj (Except.ok.inj result)
    exact ⟨fun needed none' => given ⟨Option.isNone_iff_eq_none.2 none', needed⟩, only⟩

theorem regular_of_parseSimpleItems
    (parsed : parseSimpleItems src top fuel ts = .ok (items, rest)) :
    ∀ item ∈ items, item.Regular := by
  induction fuel generalizing ts items with
  | zero => exact absurd parsed not_unexpected
  | succ fuel ih =>
      rw [parseSimpleItems] at parsed
      obtain ⟨⟨item, behind⟩, first, onward⟩ := bind_eq_ok.1 parsed
      have here : item.Regular := by
        unfold parseSimpleItem at first
        split at first
        · split at first
          · obtain ⟨⟨d, behind⟩, read, result⟩ := bind_eq_ok.1 first
            obtain ⟨rfl, rfl⟩ := Prod.mk.inj (Except.ok.inj result)
            exact regular_of_parseDeclaration read
          · cases first
        · obtain ⟨⟨s, behind⟩, read, result⟩ := bind_eq_ok.1 first
          obtain ⟨rfl, rfl⟩ := Prod.mk.inj (Except.ok.inj result)
          trivial
      dsimp only at onward
      split at onward
      · split at onward
        · obtain ⟨rfl, rfl⟩ := Prod.mk.inj (Except.ok.inj onward)
          exact List.forall_mem_singleton.2 here
        · obtain ⟨⟨more, after⟩, further, result⟩ := bind_eq_ok.1 onward
          obtain ⟨rfl, rfl⟩ := Prod.mk.inj (Except.ok.inj result)
          exact List.forall_mem_cons.2 ⟨here, ih further⟩
      · obtain ⟨rfl, rfl⟩ := Prod.mk.inj (Except.ok.inj onward)
        exact List.forall_mem_singleton.2 here

theorem regular_of_parseLine (parsed : parseLine src fuel top ts = .ok (items, rest)) :
    ∀ item ∈ items, item.Regular := by
  cases fuel with
  | zero => exact absurd parsed not_unexpected
  | succ fuel =>
      rw [parseLine] at parsed
      dsimp only at parsed
      split at parsed
      · split at parsed
        · obtain ⟨⟨name, ts₁⟩, _, onward⟩ := bind_eq_ok.1 parsed
          obtain ⟨ts₂, _, onward⟩ := bind_eq_ok.1 onward
          obtain ⟨⟨parameters, ts₃⟩, listed, onward⟩ := bind_eq_ok.1 onward
          obtain ⟨⟨body, ts₄⟩, _, result⟩ := bind_eq_ok.1 onward
          obtain ⟨rfl, rfl⟩ := Prod.mk.inj (Except.ok.inj result)
          exact List.forall_mem_singleton.2 (distinct_of_parseParameters List.nodup_nil listed)
        · cases parsed
      · obtain ⟨⟨condition, ts₁⟩, _, onward⟩ := bind_eq_ok.1 parsed
        obtain ⟨⟨body, ts₂⟩, _, onward⟩ := bind_eq_ok.1 onward
        obtain ⟨⟨⟨branches, otherwise⟩, ts₃⟩, _, result⟩ := bind_eq_ok.1 onward
        obtain ⟨rfl, rfl⟩ := Prod.mk.inj (Except.ok.inj result)
        exact List.forall_mem_singleton.2 trivial
      · obtain ⟨⟨condition, ts₁⟩, _, onward⟩ := bind_eq_ok.1 parsed
        obtain ⟨⟨body, ts₂⟩, _, result⟩ := bind_eq_ok.1 onward
        obtain ⟨rfl, rfl⟩ := Prod.mk.inj (Except.ok.inj result)
        exact List.forall_mem_singleton.2 trivial
      · obtain ⟨⟨items', ts₁⟩, simple, onward⟩ := bind_eq_ok.1 parsed
        obtain ⟨ts₂, _, result⟩ := bind_eq_ok.1 onward
        obtain ⟨rfl, rfl⟩ := Prod.mk.inj (Except.ok.inj result)
        exact regular_of_parseSimpleItems simple

theorem regular_of_parseLines (parsed : parseLines src fuel ts = .ok items) :
    ∀ item ∈ items, item.Regular := by
  induction fuel generalizing ts items with
  | zero => exact absurd parsed not_unexpected
  | succ fuel ih =>
      rw [parseLines] at parsed
      split at parsed
      · obtain rfl := Except.ok.inj parsed
        exact fun _ none' => absurd none' List.not_mem_nil
      · exact ih parsed
      · obtain ⟨⟨first, behind⟩, line, onward⟩ := bind_eq_ok.1 parsed
        obtain ⟨more, further, result⟩ := bind_eq_ok.1 onward
        obtain rfl := Except.ok.inj result
        exact List.forall_mem_append.2 ⟨regular_of_parseLine line, ih further⟩

/-- **No text is read as a program with an irregular item.** -/
theorem regular_of_parse {text : String} {items items' : List Item}
    (parsed : parse text = .ok items') (same : items'.map Item.unplaced = items.map Item.unplaced) :
    ∀ item ∈ items, item.Regular := by
  obtain ⟨ts, _, lines⟩ := bind_eq_ok.1 parsed
  have each : ∀ item ∈ items'.map Item.unplaced, item.Regular :=
    List.forall_mem_map.2 fun item there =>
      regular_unplaced.2 (regular_of_parseLines lines item there)
  rw [same] at each
  exact fun item there => regular_unplaced.1 (List.forall_mem_map.1 each item there)

end Regular

/-! ## The first lines -/

/-- Lines that start as a statement does. -/
def Fronted (depth : Nat) (lines : List Line) : Prop :=
  ∃ head pieces more, lines = ⟨depth, head, pieces⟩ :: more ∧ head ≠ "elif" ∧ head ≠ "else"

section First

variable {depth : Nat} {lines more : List Line}

theorem Fronted.behind (fronted : Fronted depth lines) : Behind depth (lines ++ more) := by
  obtain ⟨head, pieces, others, rfl, noBranch⟩ := fronted
  intro l there
  obtain rfl := Option.some.inj there
  exact ⟨Nat.le_refl depth, fun _ => noBranch⟩

theorem IsHead.noBranch {name : String} (head : IsHead name) : name ≠ "elif" ∧ name ≠ "else" :=
  ⟨fun same => head.2.1 (same ▸ by decide), fun same => head.2.1 (same ▸ by decide)⟩

theorem Statement.fronted {s : Statement} (printable : s.Printable) :
    Fronted depth (s.sourceLines depth) := by
  cases s with
  | assign => exact ⟨_, _, _, rfl, printable.1.noBranch⟩
  | call => exact ⟨_, _, _, rfl, printable.1.noBranch⟩
  | cond position branches otherwise =>
      obtain ⟨⟨condition, body⟩, rest, rfl⟩ := List.exists_cons_of_ne_nil printable.1
      exact ⟨_, _, _, rfl, by decide, by decide⟩
  | loop | pass => exact ⟨_, _, _, rfl, by decide, by decide⟩
  | «return» position value => cases value <;> exact ⟨_, _, _, rfl, by decide, by decide⟩
  | assembly => exact printable.elim

theorem Flat.named {src : Source} {ts : List Token} {head : String} {pieces : List Piece}
    (flat : Flat src depth (⟨depth, head, pieces⟩ :: more) ts) :
    (peek ts).kind = .name head := by
  obtain ⟨t, toks, newline, rest, rfl, is, _⟩ := flat.cons rfl
  exact is

theorem Fronted.named {src : Source} {ts : List Token} (fronted : Fronted depth lines)
    (flat : Flat src depth (lines ++ more) ts) : ∃ name, (peek ts).kind = .name name := by
  obtain ⟨head, pieces, others, rfl, _⟩ := fronted
  exact ⟨head, flat.named⟩

/-- Behind a statement of a block stand further ones of the block, or what is behind it. -/
theorem behind_block {body : List Statement} (printable : BlockPrintable body)
    (outer : ∀ l ∈ more.head?, l.depth < depth) :
    Behind depth (blockLines depth body ++ more) := by
  cases body with
  | nil =>
      intro l there
      have above := outer l there
      exact ⟨Nat.le_of_lt above, fun same => absurd (same ▸ above) (Nat.lt_irrefl _)⟩
  | cons s rest =>
      rw [blockLines, List.append_assoc]
      exact (Statement.fronted printable.1).behind

end First

/-! ## Blocks -/

/-- A block is read back from its lines, wherever they stand. -/
def BlockReparses (src : Source) (body : List Statement) : Prop :=
  ∀ (depth : Nat) (more : List Line) (ts : List Token) (fuel : Nat),
    Flat src (depth + 1) (blockLines (depth + 1) body ++ more) ts →
      (∀ l ∈ more.head?, l.depth ≤ depth) → 4 * ts.length < fuel →
        ∃ items ts', parseBody src fuel ts = .ok (items, ts') ∧
          unplacedBlock (statements items) = unplacedBlock body ∧
            Flat src depth more ts' ∧ ts'.length < ts.length

section Blocks

variable {src : Source} {s : Statement} {body : List Statement}

theorem blockReparses_nil : BlockReparses src [] := by
  intro depth more ts fuel flat outer enough
  obtain ⟨t, ts', rfl, is, flat⟩ := Flat.outer flat outer
  obtain ⟨fuel, rfl⟩ : ∃ k, fuel = k + 1 := ⟨fuel - 1, by omega⟩
  refine ⟨[], ts', ?_, rfl, flat, Nat.lt_succ_self _⟩
  rw [parseBody, show (peek (t :: ts')).kind = .dedent from is]
  dsimp only
  rw [skip_cons flat.ne_nil]

theorem parseBody_line {ts ts' rest : List Token} {name : String} {items more : List Item}
    {fuel : Nat} (named : (peek ts).kind = .name name)
    (line : parseLine src fuel false ts = .ok (items, ts'))
    (body : parseBody src fuel ts' = .ok (more, rest)) :
    parseBody src (fuel + 1) ts = .ok (items ++ more, rest) := by
  rw [parseBody, named]
  exact bind_eq_ok.2 ⟨_, line, bind_eq_ok.2 ⟨_, body, rfl⟩⟩

theorem blockReparses_cons (printable : s.Printable) (others : BlockPrintable body)
    (here : s.Reparses src) (behind : BlockReparses src body) :
    BlockReparses src (s :: body) := by
  intro depth more ts fuel flat outer enough
  obtain ⟨fuel, rfl⟩ : ∃ k, fuel = k + 1 := ⟨fuel - 1, by omega⟩
  rw [blockLines, List.append_assoc] at flat
  obtain ⟨name, named⟩ := (Statement.fronted printable).named flat
  obtain ⟨s', ts₁, line, same, flat, shorter⟩ := here (depth + 1) _ ts false fuel flat
    (behind_block others fun l there => Nat.lt_succ_of_le (outer l there)) (by omega)
  obtain ⟨items, ts₂, body', sameBody, flat, shorter'⟩ :=
    behind depth more ts₁ fuel flat outer (by omega)
  refine ⟨_, ts₂, parseBody_line named line body', ?_, flat, by omega⟩
  show unplacedBlock (s' :: statements items) = _
  rw [unplacedBlock, unplacedBlock, same, sameBody]

/-- **An indented block is read back behind its colon.** -/
theorem parseBlock_lines {depth fuel : Nat} {more : List Line} {ts : List Token}
    {colon newline : Token} (reparses : BlockReparses src body) (printable : BlockPrintable body)
    (some' : body ≠ []) (is : colon.kind = .mark .colon) (is' : newline.kind = .newline)
    (flat : Flat src depth (blockLines (depth + 1) body ++ more) ts)
    (outer : ∀ l ∈ more.head?, l.depth ≤ depth)
    (enough : 4 * (colon :: newline :: ts).length ≤ fuel) :
    ∃ body' ts', parseBlock src fuel (colon :: newline :: ts) = .ok (body', ts') ∧
      unplacedBlock body' = unplacedBlock body ∧ Flat src depth more ts' ∧
        ts'.length < ts.length := by
  have indented : ∃ t ts', ts = t :: ts' ∧ t.kind = .indent ∧
      Flat src (depth + 1) (blockLines (depth + 1) body ++ more) ts' := by
    obtain ⟨s, rest, rfl⟩ := List.exists_cons_of_ne_nil some'
    have fronted : Fronted (depth + 1) (s.sourceLines (depth + 1)) := Statement.fronted printable.1
    obtain ⟨head, pieces, ls, shape, _⟩ := fronted
    rw [blockLines, shape] at flat ⊢
    exact Flat.deeper flat rfl
  obtain ⟨t, inner, rfl, is'', flat⟩ := indented
  obtain ⟨fuel, rfl⟩ : ∃ k, fuel = k + 1 := ⟨fuel - 1, by simp at enough; omega⟩
  simp only [List.length_cons] at enough
  obtain ⟨items, ts', parsed, same, flat', shorter⟩ :=
    reparses depth more inner fuel flat outer (by omega)
  refine ⟨statements items, ts', ?_, same, flat', Nat.lt_succ_of_lt shorter⟩
  have behind : t :: inner ≠ [] := List.cons_ne_nil _ _
  have behind' : newline :: t :: inner ≠ [] := List.cons_ne_nil _ _
  rw [parseBlock, expect_cons is behind']
  refine bind_eq_ok.2 ⟨_, rfl, ?_⟩
  rw [if_pos (show (peek (newline :: t :: inner)).kind = .newline from is'), skip_cons behind,
    if_pos (show (peek (t :: inner)).kind = .indent from is''), skip_cons flat.ne_nil]
  exact bind_eq_ok.2 ⟨_, parsed, rfl⟩

end Blocks

/-! ## Branches -/

/-- A condition and its block behind a keyword. -/
def parseBranch (src : Source) (fuel : Nat) (ts : List Token) :
    Except CompileError (Parsed (SourceFormula × List Statement)) := do
  let (condition, ts) ← parseFormula src [.colon] (skip ts)
  let (body, ts) ← parseBlock src fuel ts
  return ((condition, body), ts)

/-- The branches behind the first one are read back from their lines. -/
def BranchesReparse (src : Source) (branches : List (SourceFormula × List Statement))
    (otherwise : List Statement) : Prop :=
  ∀ (depth : Nat) (more : List Line) (ts : List Token) (fuel : Nat),
    Flat src depth (branchLines depth "elif" branches ++ (elseLines depth otherwise ++ more)) ts →
      Behind depth more → 4 * ts.length ≤ fuel →
        ∃ branches' otherwise' ts', parseBranches src fuel ts = .ok ((branches', otherwise'), ts') ∧
          unplacedBranches branches' = unplacedBranches branches ∧
            unplacedBlock otherwise' = unplacedBlock otherwise ∧
              Flat src depth more ts' ∧ ts'.length ≤ ts.length

section Branches

variable {src : Source} {ts ts' rest : List Token} {condition : SourceFormula}
  {body otherwise : List Statement} {branches : List (SourceFormula × List Statement)}
  {fuel : Nat} {top : Bool}

theorem parseBranch_eq_ok (read : parseBranch src fuel ts = .ok ((condition, body), rest)) :
    ∃ ts', parseFormula src [.colon] (skip ts) = .ok (condition, ts') ∧
      parseBlock src fuel ts' = .ok (body, rest) := by
  obtain ⟨⟨_, ts'⟩, formula, read⟩ := bind_eq_ok.1 read
  obtain ⟨⟨_, _⟩, block, same⟩ := bind_eq_ok.1 read
  cases same
  exact ⟨ts', formula, block⟩

theorem parseLine_while (named : (peek ts).kind = .name "while")
    (read : parseBranch src fuel ts = .ok ((condition, body), rest)) :
    parseLine src (fuel + 1) top ts =
      .ok ([.statement (.loop (peek ts).position condition body)], rest) := by
  obtain ⟨ts', formula, block⟩ := parseBranch_eq_ok read
  rw [parseLine, named]
  exact bind_eq_ok.2 ⟨_, formula, bind_eq_ok.2 ⟨_, block, rfl⟩⟩

theorem parseLine_if (named : (peek ts).kind = .name "if")
    (read : parseBranch src fuel ts = .ok ((condition, body), ts'))
    (others : parseBranches src fuel ts' = .ok ((branches, otherwise), rest)) :
    parseLine src (fuel + 1) top ts =
      .ok ([.statement (.cond (peek ts).position ((condition, body) :: branches) otherwise)],
        rest) := by
  obtain ⟨ts', formula, block⟩ := parseBranch_eq_ok read
  rw [parseLine, named]
  exact bind_eq_ok.2 ⟨_, formula, bind_eq_ok.2 ⟨_, block, bind_eq_ok.2 ⟨_, others, rfl⟩⟩⟩

theorem parseBranches_elif (named : (peek ts).kind = .name "elif")
    (read : parseBranch src fuel ts = .ok ((condition, body), ts'))
    (others : parseBranches src fuel ts' = .ok ((branches, otherwise), rest)) :
    parseBranches src (fuel + 1) ts = .ok (((condition, body) :: branches, otherwise), rest) := by
  obtain ⟨ts', formula, block⟩ := parseBranch_eq_ok read
  rw [parseBranches, if_pos (show atName "elif" ts = true from beq_iff_eq.2 named)]
  exact bind_eq_ok.2 ⟨_, formula, bind_eq_ok.2 ⟨_, block, bind_eq_ok.2 ⟨_, others, rfl⟩⟩⟩

theorem atName_eq_false {name : String} (other : (peek ts).kind ≠ .name name) :
    atName name ts = false :=
  beq_eq_false_iff_ne.2 other

theorem parseBranches_else (named : (peek ts).kind = .name "else")
    (block : parseBlock src fuel (skip ts) = .ok (otherwise, rest)) :
    parseBranches src (fuel + 1) ts = .ok (([], otherwise), rest) := by
  have noElif : atName "elif" ts = false := by
    refine atName_eq_false fun same => ?_
    exact absurd (TokenKind.name.inj (named.symm.trans same)) (by decide)
  rw [parseBranches, noElif, if_neg Bool.false_ne_true,
    if_pos (show atName "else" ts = true from beq_iff_eq.2 named)]
  exact bind_eq_ok.2 ⟨_, block, rfl⟩

/-- No branch starts at lines that do not belong to a branching. -/
theorem parseBranches_behind {depth : Nat} {more : List Line} (flat : Flat src depth more ts)
    (behind : Behind depth more) : parseBranches src (fuel + 1) ts = .ok (([], []), ts) := by
  have noBranch : ∀ name, name = "elif" ∨ name = "else" → atName name ts = false := by
    refine fun name branch => atName_eq_false fun is' => ?_
    rcases flat.first fun l there => (behind l there).1 with ⟨is, _⟩ | is | ⟨l, there, same, is⟩
    · cases is.symm.trans is'
    · cases is.symm.trans is'
    · obtain rfl := TokenKind.name.inj (is.symm.trans is')
      exact branch.elim ((behind l there).2 same).1 ((behind l there).2 same).2
  rw [parseBranches, noBranch "elif" (.inl rfl), noBranch "else" (.inr rfl),
    if_neg Bool.false_ne_true, if_neg Bool.false_ne_true]

/-- A condition and its block are read back from their lines. -/
theorem parseBranch_lines {depth : Nat} {more : List Line} {keyword : String}
    (reparses : BlockReparses src body) (printable : BlockPrintable body) (some' : body ≠ [])
    (flat : Flat src depth (⟨depth, keyword, [.blank, .formula condition, .mark .colon]⟩ ::
      (blockLines (depth + 1) body ++ more)) ts)
    (outer : ∀ l ∈ more.head?, l.depth ≤ depth) (enough : 4 * ts.length ≤ fuel + 1) :
    ∃ condition' body' ts', parseBranch src fuel ts = .ok ((condition', body'), ts') ∧
      condition'.unplaced = condition.unplaced ∧ unplacedBlock body' = unplacedBlock body ∧
        Flat src depth more ts' ∧ ts'.length < ts.length := by
  obtain ⟨t, _, newline, inner, rfl, is, spells, is', inside⟩ := Flat.cons flat rfl
  obtain ⟨toks, _, rfl, printable', tokens, spells⟩ := spells.of_blank.of_formula
  obtain ⟨colon, _, rfl, colon', spells⟩ := spells.of_mark
  obtain rfl := spells.of_nil
  rw [List.append_assoc, List.cons_append, List.nil_append] at enough ⊢
  have known : ∀ m ∈ [Mark.colon], m ∈ ends := by decide
  obtain ⟨condition', same, read⟩ := parseFormula_before printable' tokens known
    (.inr ⟨.colon, by decide, colon'⟩) (newline :: inner)
  simp only [List.length_cons, List.length_append] at enough ⊢
  have enough' : 4 * (colon :: newline :: inner).length ≤ fuel := by
    simp only [List.length_cons]
    omega
  obtain ⟨body', ts', block, sameBody, flat, shorter⟩ :=
    parseBlock_lines reparses printable some' colon' is' inside outer enough'
  refine ⟨condition', body', ts', ?_, same, sameBody, flat, by omega⟩
  have nested : toks ++ colon :: newline :: inner ≠ [] := by simp
  rw [parseBranch, skip_cons nested]
  exact bind_eq_ok.2 ⟨_, read, bind_eq_ok.2 ⟨_, block, rfl⟩⟩

theorem branchesReparse_nil (reparses : BlockReparses src otherwise)
    (printable : BlockPrintable otherwise) : BranchesReparse src [] otherwise := by
  intro depth more ts fuel flat behind enough
  have one := List.length_pos_iff.2 flat.ne_nil
  obtain ⟨fuel, rfl⟩ : ∃ k, fuel = k + 1 := ⟨fuel - 1, by omega⟩
  cases otherwise with
  | nil => exact ⟨[], [], ts, parseBranches_behind flat behind, rfl, rfl, flat, Nat.le_refl _⟩
  | cons s rest =>
      have line : elseLines depth (s :: rest) =
          ⟨depth, "else", [.mark .colon]⟩ :: blockLines (depth + 1) (s :: rest) := rfl
      rw [branchLines, List.nil_append, line, List.cons_append] at flat
      have named := flat.named
      obtain ⟨t, _, newline, inner, rfl, is, spells, is', inside⟩ := flat.cons rfl
      obtain ⟨colon, _, rfl, colon', spells⟩ := spells.of_mark
      obtain rfl := spells.of_nil
      rw [List.cons_append, List.nil_append] at enough named ⊢
      have enough' : 4 * (colon :: newline :: inner).length ≤ fuel := by
        rw [List.length_cons] at enough
        omega
      obtain ⟨body', ts', block, same, flat, shorter⟩ :=
        parseBlock_lines reparses printable (List.cons_ne_nil s rest) colon' is' inside
          (fun l there => (behind l there).1) enough'
      refine ⟨[], body', ts', parseBranches_else named ?_, rfl, same, flat, ?_⟩
      · rw [skip_cons (List.cons_ne_nil colon _), block]
      · simp only [List.length_cons]
        omega

/-- Behind a block of a branching stand its further branches, or what is behind it. -/
theorem outer_branches {depth : Nat} {more : List Line} (behind : Behind depth more) :
    ∀ l ∈ (branchLines depth "elif" branches ++ (elseLines depth otherwise ++ more)).head?,
      l.depth ≤ depth := by
  intro l there
  rcases branches with _ | ⟨branch, others⟩
  · cases otherwise with
    | nil => exact (behind l there).1
    | cons s rest => exact Option.some.inj there ▸ Nat.le_refl depth
  · exact Option.some.inj there ▸ Nat.le_refl depth

theorem branchesReparse_cons (here : BlockReparses src body) (printable : BlockPrintable body)
    (some' : body ≠ []) (others : BranchesReparse src branches otherwise) :
    BranchesReparse src ((condition, body) :: branches) otherwise := by
  intro depth more ts fuel flat behind enough
  have one := List.length_pos_iff.2 flat.ne_nil
  obtain ⟨fuel, rfl⟩ : ∃ k, fuel = k + 1 := ⟨fuel - 1, by omega⟩
  rw [branchLines, List.cons_append, List.append_assoc] at flat
  obtain ⟨condition', body', ts₁, read, same, sameBody, flat', shorter⟩ :=
    parseBranch_lines here printable some' flat (outer_branches behind) enough
  obtain ⟨branches', otherwise', ts₂, read', sameBranches, sameOtherwise, flat'', shorter'⟩ :=
    others depth more ts₁ fuel flat' behind (by omega)
  refine ⟨(condition', body') :: branches', otherwise', ts₂,
    parseBranches_elif flat.named read read', ?_, sameOtherwise, flat'', by omega⟩
  rw [unplacedBranches, unplacedBranches, same, sameBody, sameBranches]

theorem reparses_cond (position : Position) (here : BlockReparses src body)
    (printable : BlockPrintable body) (some' : body ≠ [])
    (others : BranchesReparse src branches otherwise) :
    (Statement.cond position ((condition, body) :: branches) otherwise).Reparses src := by
  intro depth more ts top fuel flat behind enough
  have one := List.length_pos_iff.2 flat.ne_nil
  obtain ⟨fuel, rfl⟩ : ∃ k, fuel = k + 1 := ⟨fuel - 1, by omega⟩
  rw [Statement.sourceLines, branchLines, List.append_assoc, List.cons_append,
    List.append_assoc] at flat
  obtain ⟨condition', body', ts₁, read, same, sameBody, flat', shorter⟩ :=
    parseBranch_lines here printable some' flat (outer_branches behind) enough
  obtain ⟨branches', otherwise', ts₂, read', sameBranches, sameOtherwise, flat'', shorter'⟩ :=
    others depth more ts₁ fuel flat' behind (by omega)
  refine ⟨_, ts₂, parseLine_if flat.named read read', ?_, flat'', by omega⟩
  rw [Statement.unplaced, Statement.unplaced, unplacedBranches, unplacedBranches, same, sameBody,
    sameBranches, sameOtherwise]

theorem reparses_loop (position : Position) (here : BlockReparses src body)
    (printable : BlockPrintable body) (some' : body ≠ []) :
    (Statement.loop position condition body).Reparses src := by
  intro depth more ts top fuel flat behind enough
  have one := List.length_pos_iff.2 flat.ne_nil
  obtain ⟨fuel, rfl⟩ : ∃ k, fuel = k + 1 := ⟨fuel - 1, by omega⟩
  rw [Statement.sourceLines, List.cons_append] at flat
  obtain ⟨condition', body', ts', read, same, sameBody, flat', shorter⟩ :=
    parseBranch_lines here printable some' flat (fun l there => (behind l there).1) enough
  refine ⟨_, ts', parseLine_while flat.named read, ?_, flat', shorter⟩
  rw [Statement.unplaced, Statement.unplaced, same, sameBody]

end Branches

/-! ## Statements -/

mutual

/-- **Every statement is read back from its lines.** -/
theorem reparses_statement (src : Source) : ∀ s : Statement, s.Printable → s.Reparses src
  | .assign position _ _ _, printable => reparses_assign position printable.1
  | .cond position ((_, body) :: rest) otherwise, printable =>
      reparses_cond position (reparses_block src body printable.2.1.2.2.1) printable.2.1.2.2.1
        printable.2.1.2.1 (reparses_branches src printable.2.2
          (reparses_block src otherwise printable.2.2) rest printable.2.1.2.2.2)
  | .cond _ [] _, printable => absurd rfl printable.1
  | .loop position _ body, printable =>
      reparses_loop position (reparses_block src body printable.2.2) printable.2.2 printable.2.1
  | .call position _ _, printable => reparses_call position printable.1 printable.2.2
  | .return position _, _ => reparses_return position
  | .pass position, _ => reparses_pass position
  | .assembly _ _, printable => printable.elim

theorem reparses_branches (src : Source) {otherwise : List Statement}
    (printable : BlockPrintable otherwise) (reparses : BlockReparses src otherwise) :
    ∀ branches : List (SourceFormula × List Statement), BranchesPrintable branches →
      BranchesReparse src branches otherwise
  | [], _ => branchesReparse_nil reparses printable
  | (_, body) :: rest, each =>
      branchesReparse_cons (reparses_block src body each.2.2.1) each.2.2.1 each.2.1
        (reparses_branches src printable reparses rest each.2.2.2)

theorem reparses_block (src : Source) :
    ∀ body : List Statement, BlockPrintable body → BlockReparses src body
  | [], _ => blockReparses_nil
  | s :: rest, printable =>
      blockReparses_cons printable.1 printable.2 (reparses_statement src s printable.1)
        (reparses_block src rest printable.2)

end

/-! ## Procedures -/

section Procedures

variable {src : Source} {ts ts' toks rest : List Token} {t : Token} {known : List String}
  {x : String} {fuel : Nat}

/-- A parameter, and the comma behind it unless it is the last one. -/
theorem parseParameters_step (is : t.kind = .name x) (some' : ts ≠ []) (new : x ∉ known)
    (behind : atMark .closeParen ts = true ∧ ts = ts' ∨
      atMark .closeParen ts = false ∧ expect .comma ts = .ok ts') :
    parseParameters (fuel + 1) known (t :: ts) = parseParameters fuel (known ++ [x]) ts' := by
  have noClose : atMark .closeParen (t :: ts) = false :=
    atMark_eq_false fun same => by cases is.symm.trans same
  rw [parseParameters, noClose, if_neg Bool.false_ne_true, expectName_cons is some']
  show (if x ∈ known then _ else _) = _
  rw [if_neg new]
  rcases behind with ⟨close, rfl⟩ | ⟨noClose, comma⟩
  · rw [close, if_pos rfl]
    rfl
  · rw [noClose, if_neg Bool.false_ne_true, comma]
    rfl

theorem parseParameters_spells {parameters : List String}
    (spells : Spells src
      (separated (parameters.map fun x => [.word x]) ++ [.mark .closeParen]) toks)
    (distinct : (known ++ parameters).Nodup) (some' : rest ≠ []) (enough : toks.length ≤ fuel) :
    parseParameters fuel known (toks ++ rest) = .ok (known ++ parameters, rest) := by
  induction parameters generalizing known fuel toks with
  | nil =>
      obtain ⟨t, _, rfl, is, spells⟩ := Spells.of_mark spells
      obtain rfl := spells.of_nil
      obtain ⟨fuel, rfl⟩ : ∃ k, fuel = k + 1 := ⟨fuel - 1, by simp at enough; omega⟩
      have close : atMark .closeParen (t :: rest) = true := beq_iff_eq.2 is
      show parseParameters (fuel + 1) known (t :: rest) = _
      rw [parseParameters, close, if_pos rfl, skip_cons some', List.append_nil]
  | cons x others ih =>
      have new : x ∉ known := fun there =>
        (List.nodup_append.1 distinct).2.2 x there x (List.mem_cons_self ..) rfl
      have distinct' : (known ++ [x] ++ others).Nodup := by rwa [List.append_assoc]
      have shape : known ++ x :: others = known ++ [x] ++ others := by rw [List.append_assoc]; rfl
      rw [shape]
      cases others with
      | nil =>
          obtain ⟨word, toks, rfl, is, last⟩ := Spells.of_word spells
          obtain ⟨fuel, rfl⟩ : ∃ k, fuel = k + 1 := ⟨fuel - 1, by simp at enough; omega⟩
          have bound : toks.length ≤ fuel := Nat.le_of_succ_le_succ enough
          have close : atMark .closeParen (toks ++ rest) = true := by
            obtain ⟨t, _, rfl, is', _⟩ := Spells.of_mark last
            exact beq_iff_eq.2 is'
          have behind : toks ++ rest ≠ [] := List.append_ne_nil_of_right_ne_nil _ some'
          rw [List.cons_append, parseParameters_step is behind new (.inl ⟨close, rfl⟩)]
          exact ih last distinct' bound
      | cons next more =>
          obtain ⟨word, _, rfl, is, onward⟩ := Spells.of_word spells
          obtain ⟨comma, toks, rfl, is', onward⟩ := onward.of_mark
          obtain ⟨fuel, rfl⟩ : ∃ k, fuel = k + 1 := ⟨fuel - 1, by simp at enough; omega⟩
          have bound : toks.length ≤ fuel := by
            simp only [List.length_cons] at enough
            omega
          have behind : toks ++ rest ≠ [] := List.append_ne_nil_of_right_ne_nil _ some'
          have noClose : atMark .closeParen (comma :: (toks ++ rest)) = false :=
            atMark_eq_false fun same => by cases is'.symm.trans same
          rw [List.cons_append, List.cons_append, parseParameters_step is (List.cons_ne_nil _ _) new
            (.inr ⟨noClose, expect_cons is' behind⟩)]
          exact ih onward.of_blank distinct' bound

theorem reparses_procedure {p : Procedure} {more : List Line} (printable : p.Printable)
    (distinct : p.parameters.Nodup)
    (flat : Flat src 0 ((Item.procedure p).sourceLines ++ more) ts) (behind : Behind 0 more)
    (enough : 4 * ts.length ≤ fuel) :
    ∃ p' ts', parseLine src fuel true ts = .ok ([.procedure p'], ts') ∧
      p'.unplaced = p.unplaced ∧ Flat src 0 more ts' ∧ ts'.length < ts.length := by
  obtain ⟨t, toks, newline, inner, rfl, is, spells, is', inside⟩ := flat.cons rfl
  have pieces : p.pieces = .blank :: .word p.name :: .mark .openParen ::
      (separated (p.parameters.map fun x => [.word x]) ++ [.mark .closeParen] ++
        [.mark .colon]) := by
    simp [Procedure.pieces]
  change Spells src p.pieces toks at spells
  rw [pieces] at spells
  obtain ⟨word, _, rfl, word', spells⟩ := spells.of_blank.of_word
  obtain ⟨mark, _, rfl, mark', spells⟩ := spells.of_mark
  obtain ⟨names, _, rfl, listed, spells⟩ := spells.split
  obtain ⟨colon, _, rfl, colon', spells⟩ := spells.of_mark
  obtain rfl := spells.of_nil
  have text : t :: (word :: mark :: (names ++ [colon]) ++ newline :: inner) =
      t :: word :: mark :: (names ++ colon :: newline :: inner) := by simp
  rw [text] at enough ⊢
  simp only [List.length_cons, List.length_append] at enough ⊢
  obtain ⟨fuel, rfl⟩ : ∃ k, fuel = k + 1 := ⟨fuel - 1, by omega⟩
  have enough' : 4 * (colon :: newline :: inner).length ≤ fuel := by
    simp only [List.length_cons]
    omega
  obtain ⟨body', ts', block, same, flat', shorter⟩ :=
    parseBlock_lines (reparses_block src p.body printable.body) printable.body printable.some'
      colon' is' inside (fun l there => (behind l there).1) enough'
  have some' : colon :: newline :: inner ≠ [] := List.cons_ne_nil _ _
  have some'' : names ++ colon :: newline :: inner ≠ [] :=
    List.append_ne_nil_of_right_ne_nil _ some'
  have room : names.length ≤ (names ++ colon :: newline :: inner).length + 1 := by
    rw [List.length_append]
    omega
  have distinct' : ([] ++ p.parameters).Nodup := distinct
  have parameters := parseParameters_spells listed distinct' some' room
  have named : (peek (t :: word :: mark :: (names ++ colon :: newline :: inner))).kind =
      .name "def" := is
  refine ⟨⟨p.name, p.parameters, body', t.position⟩, ts', ?_, ?_, flat', by omega⟩
  · rw [parseLine, named]
    dsimp only
    rw [if_pos rfl, skip_cons (List.cons_ne_nil word _)]
    refine bind_eq_ok.2 ⟨_, expectName_cons word' (List.cons_ne_nil mark _), ?_⟩
    refine bind_eq_ok.2 ⟨_, expect_cons mark' some'', ?_⟩
    exact bind_eq_ok.2 ⟨_, parameters, bind_eq_ok.2 ⟨_, block, rfl⟩⟩
  · rw [Procedure.unplaced, Procedure.unplaced, same]

end Procedures

/-! ## Programs -/

section Programs

variable {src : Source} {item : Item} {items : List Item} {ts : List Token} {fuel : Nat}

theorem Item.fronted (printable : item.Printable) : Fronted 0 item.sourceLines := by
  cases item with
  | declaration d =>
      have noBranch : d.kind.keyword ≠ "elif" ∧ d.kind.keyword ≠ "else" := by
        cases d.kind <;> decide
      exact ⟨_, _, _, rfl, noBranch⟩
  | procedure p => exact ⟨_, _, _, rfl, by decide, by decide⟩
  | statement s => exact Statement.fronted printable

theorem reparses_item {more : List Line} (printable : item.Printable) (regular : item.Regular)
    (flat : Flat src 0 (item.sourceLines ++ more) ts) (behind : Behind 0 more)
    (enough : 4 * ts.length ≤ fuel) :
    ∃ item' ts', parseLine src fuel true ts = .ok ([item'], ts') ∧
      item'.unplaced = item.unplaced ∧ Flat src 0 more ts' ∧ ts'.length < ts.length := by
  cases item with
  | declaration d =>
      have other : d.kind.keyword ∉ ["def", "if", "while"] := by cases d.kind <;> decide
      refine parseLine_flat other (fun t toks newline rest is spells is' _ => ?_) flat enough
      obtain ⟨declares, d', parsed, same⟩ := parseDeclaration_spells regular is spells is'
      refine ⟨.declaration d', congrArg Item.declaration same, ?_⟩
      rw [parseSimpleItem, declares]
      exact bind_eq_ok.2 ⟨_, parsed, rfl⟩
  | procedure p =>
      obtain ⟨p', ts', parsed, same, onward⟩ :=
        reparses_procedure printable regular flat behind enough
      exact ⟨_, ts', parsed, congrArg Item.procedure same, onward⟩
  | statement s =>
      obtain ⟨s', ts', parsed, same, onward⟩ :=
        reparses_statement src s printable 0 more ts true fuel flat behind enough
      exact ⟨_, ts', parsed, congrArg Item.statement same, onward⟩

theorem parseLines_items (printable : ∀ item ∈ items, item.Printable)
    (regular : ∀ item ∈ items, item.Regular)
    (flat : Flat src 0 (items.flatMap Item.sourceLines) ts) (enough : ts.length < fuel) :
    ∃ items', parseLines src fuel ts = .ok items' ∧
      items'.map Item.unplaced = items.map Item.unplaced := by
  induction items generalizing ts fuel with
  | nil =>
      obtain ⟨fuel, rfl⟩ : ∃ k, fuel = k + 1 := ⟨fuel - 1, by omega⟩
      cases flat with
      | eof is =>
          refine ⟨[], ?_, rfl⟩
          rw [parseLines, show (peek [_]).kind = .eof from is]
  | cons item others ih =>
      obtain ⟨fuel, rfl⟩ : ∃ k, fuel = k + 1 := ⟨fuel - 1, by omega⟩
      obtain ⟨here, printable⟩ := List.forall_mem_cons.1 printable
      obtain ⟨here', regular⟩ := List.forall_mem_cons.1 regular
      rw [List.flatMap_cons] at flat
      have behind : Behind 0 (others.flatMap Item.sourceLines) := by
        cases others with
        | nil => exact fun _ none' => by cases none'
        | cons next more =>
            rw [List.flatMap_cons]
            exact (Item.fronted (List.forall_mem_cons.1 printable).1).behind
      obtain ⟨name, named⟩ := (Item.fronted here).named flat
      have enough' : 4 * ts.length ≤ 4 * (ts.length + 1) := by omega
      obtain ⟨item', ts', parsed, same, flat, shorter⟩ :=
        reparses_item here here' flat behind enough'
      have shorter' : ts'.length < fuel := by omega
      obtain ⟨items', parsed', same'⟩ := ih printable regular flat shorter'
      refine ⟨item' :: items', ?_, ?_⟩
      · rw [parseLines, named]
        exact bind_eq_ok.2 ⟨_, parsed, bind_eq_ok.2 ⟨_, parsed', rfl⟩⟩
      · rw [List.map_cons, List.map_cons, same, same']

/-- **A program is read back from its text** just if its items are regular.  Only the places of
its parts change. -/
theorem parse_layOut_iff {width : Nat} (wide : 0 < width)
    (printable : ∀ item ∈ items, item.Printable) :
    (∃ items', parse (layOut width items) = .ok items' ∧
      items'.map Item.unplaced = items.map Item.unplaced) ↔ ∀ item ∈ items, item.Regular := by
  refine ⟨fun ⟨_, parsed, same⟩ => regular_of_parse parsed same, fun regular => ?_⟩
  have laid : ∀ l ∈ items.flatMap Item.sourceLines, Laid 0 l.pieces := by
    intro l there
    obtain ⟨item, there, inside⟩ := List.mem_flatMap.1 there
    exact laid_item (printable item there) l inside
  have nested : Nested 0 (items.flatMap Item.sourceLines ++ []) :=
    nests_items items [] (fun _ _ => trivial) 0 (Nat.zero_le _)
  rw [List.append_nil] at nested
  obtain ⟨ts, cut, flat⟩ := flat_of_lines wide laid nested
  obtain ⟨items', parsed, same⟩ := parseLines_items printable regular flat (Nat.lt_succ_self _)
  exact ⟨items', bind_eq_ok.2 ⟨ts, cut, parsed⟩, same⟩

theorem parse_layOut_nested :
    let x : SourceFormula := ⟨.name 0 "x", "x", 0⟩
    let sum : SourceFormula := ⟨.call 0 "sum" [.name 4 "x", .name 7 "y"], "sum(x, y)", 0⟩
    let call := Statement.call nowhere "g" [⟨none, sum⟩, ⟨some "k", x⟩]
    let choice := Statement.cond nowhere
      [(x, [.loop nowhere sum [.pass nowhere]]), (sum, [.return nowhere none])] [call]
    let d : Declaration := ⟨.parameter, "p", some sum, [("int", nowhere)], some "u8", nowhere⟩
    let p : Procedure :=
      ⟨"h", ["x", "y"], [choice, .assign nowhere "x" (some .shl) sum], nowhere⟩
    let items := [Item.declaration d, .procedure p]
    layOut 2 items = "parameter<u8> p = sum(x, y), int\ndef h(x, y):\n  if x:\n" ++
      "    while sum(x, y):\n      pass\n  elif sum(x, y):\n    return\n" ++
      "  else:\n    g(sum(x, y), k = x)\n  x <<= sum(x, y)\n" ∧
    0 < 2 ∧ (∀ item ∈ items, item.Printable) ∧ (∀ item ∈ items, item.Regular) ∧
      ∃ items', parse (layOut 2 items) = .ok items' ∧
        items'.map Item.unplaced = items.map Item.unplaced := by
  intro x sum call choice d p items
  have head : ∀ name ∈ ["p", "int", "u8", "h", "x", "y", "g", "k"], IsHead name := by
    intro name there
    simp only [List.mem_cons, List.not_mem_nil, or_false] at there
    rcases there with rfl | rfl | rfl | rfl | rfl | rfl | rfl | rfl <;>
      exact ⟨⟨_, _, rfl, rfl, rfl, List.all_eq_true.1 rfl⟩, by decide, by decide⟩
  have word : ∀ name ∈ ["p", "int", "u8", "h", "x", "y", "g", "k"], Formula.IsWord name :=
    fun name there => (head name there).1
  have first : x.Printable :=
    ⟨by cbv, by simp +decide [x], by decide, by decide, by simp +decide [x]⟩
  have second : sum.Printable :=
    ⟨by cbv, by simp +decide [sum], by decide, by decide, by simp +decide [sum]⟩
  have called : Statement.Printable call := by
    refine ⟨head "g" (by decide), List.forall_mem_cons.2 ⟨⟨(fun _ none' => by cases none'), second⟩,
      List.forall_mem_singleton.2 ⟨fun _ there => ?_, first⟩⟩, by simp [KeywordsLast]⟩
    exact Option.some.inj there ▸ word "k" (by decide)
  have loop : Statement.Printable (.loop nowhere sum [.pass nowhere]) :=
    ⟨second, List.cons_ne_nil _ _, trivial, trivial⟩
  have chosen : Statement.Printable choice :=
    ⟨List.cons_ne_nil _ _, ⟨first, List.cons_ne_nil _ _, ⟨loop, trivial⟩, second,
      List.cons_ne_nil _ _, ⟨(fun _ none' => by cases none'), trivial⟩, trivial⟩, called, trivial⟩
  have declared : d.Printable :=
    ⟨word "p" (by decide), fun _ there => Option.some.inj there ▸ second,
      List.forall_mem_singleton.2 (word "int" (by decide)),
      fun _ there => Option.some.inj there ▸ word "u8" (by decide)⟩
  have procedure : p.Printable :=
    ⟨word "h" (by decide), fun x there => word x (by revert x; decide), List.cons_ne_nil _ _,
      chosen, ⟨head "x" (by decide), second⟩, trivial⟩
  have printable : ∀ item ∈ items, item.Printable :=
    List.forall_mem_cons.2 ⟨declared, List.forall_mem_singleton.2 procedure⟩
  have regular : ∀ item ∈ items, item.Regular :=
    List.forall_mem_cons.2 ⟨⟨(fun needed => by cases needed), fun _ _ => rfl⟩,
      List.forall_mem_singleton.2 (by decide : ["x", "y"].Nodup)⟩
  exact ⟨by cbv, by decide, printable, regular, (parse_layOut_iff (by decide) printable).2 regular⟩

/-- A procedure that takes a parameter twice is not read back. -/
theorem repeated_parameters_rejected :
    let p : Procedure := ⟨"f", ["a", "a"], [.pass nowhere], nowhere⟩
    (∀ name ∈ ["f", "a"], IsHead name) ∧ p.Printable ∧
      ¬ ∃ items', parse (layOut 4 [.procedure p]) = .ok items' ∧
        items'.map Item.unplaced = [Item.procedure p].map Item.unplaced := by
  intro p
  have head : ∀ name ∈ ["f", "a"], IsHead name := by
    intro name there
    simp only [List.mem_cons, List.not_mem_nil, or_false] at there
    rcases there with rfl | rfl <;>
      exact ⟨⟨_, _, rfl, rfl, rfl, List.all_eq_true.1 rfl⟩, by decide, by decide⟩
  have word : Formula.IsWord "a" := (head "a" (by decide)).1
  have words : ∀ x ∈ p.parameters, Formula.IsWord x :=
    List.forall_mem_cons.2 ⟨word, List.forall_mem_singleton.2 word⟩
  refine ⟨head, ⟨(head "f" (by decide)).1, words, List.cons_ne_nil _ _, trivial, trivial⟩, ?_⟩
  rintro ⟨items', parsed, same⟩
  have distinct : ["a", "a"].Nodup := regular_of_parse parsed same _ (List.mem_singleton.2 rfl)
  exact absurd distinct (by decide)

end Programs

end PulseSequencer.Ppp
