import PulseSequencer.Proofs.Ppp.Parsing

/-
# PulseSequencer.Proofs.Ppp.ParsedFormulas -- every formula is what its text is parsed to

`wellformed_of_parse` follows the brackets from token to token, which assembly text may leave
open.  That a formula of the source is what its own text is parsed to takes no such care, and
holds of every source: `parsed_of_parse`.
-/

namespace PulseSequencer.Ppp

set_option autoImplicit false

/-- The formulas of an item. -/
def Item.formulas : Item → List SourceFormula
  | .declaration d => d.value.toList
  | .statement s => s.formulas
  | .procedure p => Statement.blockFormulas p.body

/-- Items whose formulas are parsed from their texts. -/
def ParsedItems (items : List Item) : Prop := ∀ item ∈ items, AllParsed item.formulas

theorem allParsed_nil : AllParsed [] := fun _ there => absurd there List.not_mem_nil

theorem parsedItems_nil : ParsedItems [] := fun _ there => absurd there List.not_mem_nil

theorem parsedItems_singleton {item : Item} (parsed : AllParsed item.formulas) :
    ParsedItems [item] :=
  fun _ same => List.mem_singleton.1 same ▸ parsed

theorem ParsedItems.append {a b : List Item} (first : ParsedItems a) (second : ParsedItems b) :
    ParsedItems (a ++ b) :=
  List.forall_mem_append.2 ⟨first, second⟩

/-- The formulas of the statements among parsed items. -/
theorem ParsedItems.statements {items : List Item} (parsed : ParsedItems items) :
    AllParsed (Statement.blockFormulas (Ppp.statements items)) := by
  intro v there
  obtain ⟨s, inItems, of⟩ := mem_blockFormulas.1 there
  exact parsed _ (mem_statements.1 inItems) v of

section Simple

variable {src : Source} {ts rest : List Token}

theorem parsed_of_parseFormula {stops : List Mark} {v : SourceFormula}
    (parsed : parseFormula src stops ts = .ok (v, rest)) :
    Formula.parse v.text = .ok v.formula := by
  unfold parseFormula at parsed
  dsimp only at parsed
  split at parsed
  · cases parsed
  · obtain ⟨formula, read, result⟩ := bind_eq_ok.1 parsed
    obtain ⟨rfl, rfl⟩ := Prod.mk.inj (Except.ok.inj result)
    exact ok_of_mapError read

theorem parsed_of_parseArguments {fuel : Nat} {keywordSeen : Bool} {arguments : List Argument}
    (parsed : parseArguments src fuel keywordSeen ts = .ok (arguments, rest)) :
    AllParsed (arguments.map (·.value)) := by
  induction fuel generalizing ts keywordSeen arguments with
  | zero => exact absurd parsed not_unexpected
  | succ fuel ih =>
      rw [parseArguments] at parsed
      split at parsed
      · obtain ⟨rfl, rfl⟩ := Prod.mk.inj (Except.ok.inj parsed)
        exact allParsed_nil
      · split at parsed
        rename_i keyword ts' chosen
        split at parsed
        · cases parsed
        · obtain ⟨⟨value, ts₁⟩, read, onward⟩ := bind_eq_ok.1 parsed
          have onMore : ∀ {ts₂ : List Token} {more : List Argument},
              parseArguments src fuel (keywordSeen || keyword.isSome) ts₂ = .ok (more, rest) →
                AllParsed ((⟨keyword, value⟩ :: more).map (·.value)) := fun further =>
            List.forall_mem_cons.2 ⟨parsed_of_parseFormula read, ih further⟩
          dsimp only at onward
          split at onward
          · obtain ⟨ts₂, _, onward⟩ := bind_eq_ok.1 onward
            obtain ⟨⟨more, ts₃⟩, further, result⟩ := bind_eq_ok.1 onward
            obtain ⟨rfl, rfl⟩ := Prod.mk.inj (Except.ok.inj result)
            exact onMore further
          · obtain ⟨ts₂, _, onward⟩ := bind_eq_ok.1 onward
            obtain ⟨⟨more, ts₃⟩, further, result⟩ := bind_eq_ok.1 onward
            obtain ⟨rfl, rfl⟩ := Prod.mk.inj (Except.ok.inj result)
            exact onMore further

theorem parsed_of_parseNamed {position : Position} {name : String} {s : Statement}
    (parsed : parseNamed src position name ts = .ok (s, rest)) : AllParsed s.formulas := by
  unfold parseNamed at parsed
  split at parsed
  · obtain ⟨⟨arguments, behind⟩, read, result⟩ := bind_eq_ok.1 parsed
    obtain ⟨rfl, rfl⟩ := Prod.mk.inj (Except.ok.inj result)
    rw [Statement.formulas]
    exact parsed_of_parseArguments read
  · obtain ⟨⟨value, behind⟩, read, result⟩ := bind_eq_ok.1 parsed
    obtain ⟨rfl, rfl⟩ := Prod.mk.inj (Except.ok.inj result)
    rw [Statement.formulas]
    exact allParsed_singleton (parsed_of_parseFormula read)
  · split at parsed
    · obtain ⟨⟨value, behind⟩, read, result⟩ := bind_eq_ok.1 parsed
      obtain ⟨rfl, rfl⟩ := Prod.mk.inj (Except.ok.inj result)
      rw [Statement.formulas]
      exact allParsed_singleton (parsed_of_parseFormula read)
    · exact absurd parsed not_unexpected
  · exact absurd parsed not_unexpected

theorem parsed_of_parseSimple {s : Statement} (parsed : parseSimple src ts = .ok (s, rest)) :
    AllParsed s.formulas := by
  unfold parseSimple at parsed
  dsimp only at parsed
  split at parsed
  · obtain ⟨rfl, rfl⟩ := Prod.mk.inj (Except.ok.inj parsed)
    rw [Statement.formulas]
    exact allParsed_nil
  · split at parsed
    · obtain ⟨rfl, rfl⟩ := Prod.mk.inj (Except.ok.inj parsed)
      rw [Statement.formulas]
      exact allParsed_nil
    · obtain ⟨⟨value, behind⟩, read, result⟩ := bind_eq_ok.1 parsed
      obtain ⟨rfl, rfl⟩ := Prod.mk.inj (Except.ok.inj result)
      rw [Statement.formulas]
      exact allParsed_singleton (parsed_of_parseFormula read)
  · split at parsed
    · obtain ⟨rfl, _⟩ := Prod.mk.inj (Except.ok.inj parsed)
      rw [Statement.formulas]
      exact allParsed_nil
    · exact parsed_of_parseNamed parsed
  · exact absurd parsed not_unexpected

theorem parsed_of_parseDeclaration {kind : DeclarationKind} {d : Declaration}
    (parsed : parseDeclaration src kind ts = .ok (d, rest)) : AllParsed d.value.toList := by
  unfold parseDeclaration at parsed
  obtain ⟨⟨encoding, ts₁⟩, _, onward⟩ := bind_eq_ok.1 parsed
  obtain ⟨⟨name, ts₂⟩, _, onward⟩ := bind_eq_ok.1 onward
  obtain ⟨⟨value, ts₃⟩, valued, onward⟩ := bind_eq_ok.1 onward
  have isValue : AllParsed value.toList := by
    unfold parseValue at valued
    split at valued
    · obtain ⟨⟨v, behind⟩, read, result⟩ := bind_eq_ok.1 valued
      obtain ⟨rfl, rfl⟩ := Prod.mk.inj (Except.ok.inj result)
      exact allParsed_singleton (parsed_of_parseFormula read)
    · obtain ⟨rfl, rfl⟩ := Prod.mk.inj (Except.ok.inj valued)
      exact allParsed_nil
  dsimp only at onward
  split at onward
  · cases onward
  · obtain ⟨⟨attributes, ts₄⟩, _, result⟩ := bind_eq_ok.1 onward
    obtain ⟨rfl, rfl⟩ := Prod.mk.inj (Except.ok.inj result)
    exact isValue

theorem parsed_of_parseSimpleItem {top : Bool} {item : Item}
    (parsed : parseSimpleItem src top ts = .ok (item, rest)) : AllParsed item.formulas := by
  unfold parseSimpleItem at parsed
  split at parsed
  · split at parsed
    · obtain ⟨⟨d, behind⟩, read, result⟩ := bind_eq_ok.1 parsed
      obtain ⟨rfl, rfl⟩ := Prod.mk.inj (Except.ok.inj result)
      exact parsed_of_parseDeclaration read
    · cases parsed
  · obtain ⟨⟨s, behind⟩, read, result⟩ := bind_eq_ok.1 parsed
    obtain ⟨rfl, rfl⟩ := Prod.mk.inj (Except.ok.inj result)
    exact parsed_of_parseSimple read

theorem parsed_of_parseSimpleItems {top : Bool} {fuel : Nat} {items : List Item}
    (parsed : parseSimpleItems src top fuel ts = .ok (items, rest)) : ParsedItems items := by
  induction fuel generalizing ts items with
  | zero => exact absurd parsed not_unexpected
  | succ fuel ih =>
      rw [parseSimpleItems] at parsed
      obtain ⟨⟨item, behind⟩, first, onward⟩ := bind_eq_ok.1 parsed
      have here := parsedItems_singleton (parsed_of_parseSimpleItem first)
      dsimp only at onward
      split at onward
      · split at onward
        · obtain ⟨rfl, rfl⟩ := Prod.mk.inj (Except.ok.inj onward)
          exact here
        · obtain ⟨⟨more, after⟩, further, result⟩ := bind_eq_ok.1 onward
          obtain ⟨rfl, rfl⟩ := Prod.mk.inj (Except.ok.inj result)
          exact here.append (ih further)
      · obtain ⟨rfl, rfl⟩ := Prod.mk.inj (Except.ok.inj onward)
        exact here

end Simple

/-! ## Blocks -/

section Blocks

variable {src : Source} {fuel : Nat} {ts rest : List Token}

/-- What the parser of blocks returns has formulas that are parsed from their texts. -/
structure ParsesFormulas (src : Source) (fuel : Nat) : Prop where
  line : ∀ {top ts items rest}, parseLine src fuel top ts = .ok (items, rest) → ParsedItems items
  branches : ∀ {ts} {branching : Branching} {rest},
    parseBranches src fuel ts = .ok (branching, rest) →
      AllParsed (Statement.branchFormulas branching.1 ++ Statement.blockFormulas branching.2)
  block : ∀ {ts body rest}, parseBlock src fuel ts = .ok (body, rest) →
    AllParsed (Statement.blockFormulas body)
  body : ∀ {ts items rest}, parseBody src fuel ts = .ok (items, rest) → ParsedItems items

variable (parses : ParsesFormulas src fuel)
include parses

/-- A condition and its block. -/
theorem ParsesFormulas.conditional {stops : List Mark} {condition : SourceFormula}
    {ts₁ : List Token} {body : List Statement}
    (read : parseFormula src stops ts = .ok (condition, ts₁))
    (blocked : parseBlock src fuel ts₁ = .ok (body, rest)) :
    AllParsed (condition :: Statement.blockFormulas body) :=
  List.forall_mem_cons.2 ⟨parsed_of_parseFormula read, parses.block blocked⟩

theorem ParsesFormulas.step_line {top : Bool} {items : List Item}
    (parsed : parseLine src (fuel + 1) top ts = .ok (items, rest)) : ParsedItems items := by
  rw [parseLine] at parsed
  dsimp only at parsed
  split at parsed
  · split at parsed
    · obtain ⟨⟨name, ts₁⟩, _, onward⟩ := bind_eq_ok.1 parsed
      obtain ⟨ts₂, _, onward⟩ := bind_eq_ok.1 onward
      obtain ⟨⟨parameters, ts₃⟩, _, onward⟩ := bind_eq_ok.1 onward
      obtain ⟨⟨body, ts₄⟩, blocked, result⟩ := bind_eq_ok.1 onward
      obtain ⟨rfl, rfl⟩ := Prod.mk.inj (Except.ok.inj result)
      exact parsedItems_singleton (parses.block blocked)
    · cases parsed
  · obtain ⟨⟨condition, ts₁⟩, read, onward⟩ := bind_eq_ok.1 parsed
    obtain ⟨⟨body, ts₂⟩, blocked, onward⟩ := bind_eq_ok.1 onward
    obtain ⟨⟨⟨branches, otherwise⟩, ts₃⟩, branched, result⟩ := bind_eq_ok.1 onward
    obtain ⟨rfl, rfl⟩ := Prod.mk.inj (Except.ok.inj result)
    refine parsedItems_singleton ?_
    rw [Item.formulas, Statement.formulas, Statement.branchFormulas]
    exact List.append_assoc (_ :: _) .. ▸
      List.forall_mem_append.2 ⟨parses.conditional read blocked, parses.branches branched⟩
  · obtain ⟨⟨condition, ts₁⟩, read, onward⟩ := bind_eq_ok.1 parsed
    obtain ⟨⟨body, ts₂⟩, blocked, result⟩ := bind_eq_ok.1 onward
    obtain ⟨rfl, rfl⟩ := Prod.mk.inj (Except.ok.inj result)
    refine parsedItems_singleton ?_
    rw [Item.formulas, Statement.formulas]
    exact parses.conditional read blocked
  · obtain ⟨⟨items', ts₁⟩, simple, onward⟩ := bind_eq_ok.1 parsed
    obtain ⟨ts₂, _, result⟩ := bind_eq_ok.1 onward
    obtain ⟨rfl, rfl⟩ := Prod.mk.inj (Except.ok.inj result)
    exact parsed_of_parseSimpleItems simple

theorem ParsesFormulas.step_branches {branching : Branching}
    (parsed : parseBranches src (fuel + 1) ts = .ok (branching, rest)) :
    AllParsed (Statement.branchFormulas branching.1 ++ Statement.blockFormulas branching.2) := by
  rw [parseBranches] at parsed
  split at parsed
  · obtain ⟨⟨condition, ts₁⟩, read, onward⟩ := bind_eq_ok.1 parsed
    obtain ⟨⟨body, ts₂⟩, blocked, onward⟩ := bind_eq_ok.1 onward
    obtain ⟨⟨⟨branches, otherwise⟩, ts₃⟩, branched, result⟩ := bind_eq_ok.1 onward
    obtain ⟨rfl, rfl⟩ := Prod.mk.inj (Except.ok.inj result)
    rw [Statement.branchFormulas]
    exact List.append_assoc (_ :: _) .. ▸
      List.forall_mem_append.2 ⟨parses.conditional read blocked, parses.branches branched⟩
  · split at parsed
    · obtain ⟨⟨otherwise, ts₁⟩, blocked, result⟩ := bind_eq_ok.1 parsed
      obtain ⟨rfl, rfl⟩ := Prod.mk.inj (Except.ok.inj result)
      exact parses.block blocked
    · obtain ⟨rfl, rfl⟩ := Prod.mk.inj (Except.ok.inj parsed)
      exact allParsed_nil

theorem ParsesFormulas.step_block {body : List Statement}
    (parsed : parseBlock src (fuel + 1) ts = .ok (body, rest)) :
    AllParsed (Statement.blockFormulas body) := by
  rw [parseBlock] at parsed
  obtain ⟨ts₁, _, onward⟩ := bind_eq_ok.1 parsed
  split at onward
  · dsimp only at onward
    split at onward
    · obtain ⟨⟨items, ts₂⟩, lines, result⟩ := bind_eq_ok.1 onward
      obtain ⟨rfl, rfl⟩ := Prod.mk.inj (Except.ok.inj result)
      exact (parses.body lines).statements
    · cases onward
  · obtain ⟨⟨items, ts₂⟩, line, result⟩ := bind_eq_ok.1 onward
    obtain ⟨rfl, rfl⟩ := Prod.mk.inj (Except.ok.inj result)
    exact (parses.line line).statements

theorem ParsesFormulas.step_body {items : List Item}
    (parsed : parseBody src (fuel + 1) ts = .ok (items, rest)) : ParsedItems items := by
  rw [parseBody] at parsed
  split at parsed
  · obtain ⟨rfl, rfl⟩ := Prod.mk.inj (Except.ok.inj parsed)
    exact parsedItems_nil
  · obtain ⟨rfl, rfl⟩ := Prod.mk.inj (Except.ok.inj parsed)
    exact parsedItems_nil
  · exact parses.body parsed
  · obtain ⟨⟨first, ts₁⟩, line, onward⟩ := bind_eq_ok.1 parsed
    obtain ⟨⟨more, ts₂⟩, lines, result⟩ := bind_eq_ok.1 onward
    obtain ⟨rfl, rfl⟩ := Prod.mk.inj (Except.ok.inj result)
    exact (parses.line line).append (parses.body lines)

end Blocks

theorem parsesFormulas (src : Source) (fuel : Nat) : ParsesFormulas src fuel := by
  induction fuel with
  | zero =>
      exact ⟨fun parsed => absurd parsed not_unexpected, fun parsed => absurd parsed not_unexpected,
        fun parsed => absurd parsed not_unexpected, fun parsed => absurd parsed not_unexpected⟩
  | succ fuel parses =>
      exact ⟨parses.step_line, parses.step_branches, parses.step_block, parses.step_body⟩

theorem parsed_of_parseLines {src : Source} {fuel : Nat} {ts : List Token} {items : List Item}
    (parsed : parseLines src fuel ts = .ok items) : ParsedItems items := by
  induction fuel generalizing ts items with
  | zero => exact absurd parsed not_unexpected
  | succ fuel ih =>
      rw [parseLines] at parsed
      split at parsed
      · obtain rfl := Except.ok.inj parsed
        exact parsedItems_nil
      · exact ih parsed
      · obtain ⟨⟨first, behind⟩, line, onward⟩ := bind_eq_ok.1 parsed
        obtain ⟨more, further, result⟩ := bind_eq_ok.1 onward
        obtain rfl := Except.ok.inj result
        exact ((parsesFormulas src _).line line).append (ih further)

/-- **Every formula of a source is what its text is parsed to.** -/
theorem parsed_of_parse {source : String} {items : List Item} (parsed : parse source = .ok items) :
    ParsedItems items := by
  obtain ⟨ts, _, lines⟩ := bind_eq_ok.1 parsed
  exact parsed_of_parseLines lines

end PulseSequencer.Ppp
