import PulseSequencer.Proofs.Ppp.Meaning
import PulseSequencer.Proofs.Ppp.Scanning

/-
# PulseSequencer.Proofs.Ppp.Parsing -- the formulas that are parsed

The parser stands between tokens, with as many brackets open as there are calls around it
(`Inside`).  So the text of a declared value is a piece of a logical line that closes what
it opens, and every formula of a statement is what its text is parsed to:
`wellformed_of_parse`.
-/

namespace PulseSequencer.Ppp

open PulseSequencer.Text (byteLength takeBytes dropBytes isBlank)

set_option autoImplicit false

/-! ## Texts of formulas -/

/-- The text of a formula of the source, with continued lines joined. -/
structure SourceFormula.Wellformed (v : SourceFormula) : Prop where
  parsed : Formula.parse v.text = .ok v.formula
  body : ∃ body, Body 0 body 0 ∧ v.text = String.ofList (blankContinuations body)
  tight : Tight v.text.toList

/-- Names in a declaration are names, and its value is a formula. -/
structure Declaration.Wellformed (d : Declaration) : Prop where
  name : IsName d.name.toList
  value : ∀ v, d.value = some v → v.Wellformed
  attributes : ∀ a ∈ d.attributes, IsName a.1.toList
  encoding : ∀ name, d.encoding = some name → IsName name.toList

/-- Formulas that are parsed from their texts. -/
def AllParsed (formulas : List SourceFormula) : Prop :=
  ∀ v ∈ formulas, Formula.parse v.text = .ok v.formula

/-- Names in front of a body are names, and its formulas are parsed. -/
structure Procedure.Wellformed (p : Procedure) : Prop where
  name : IsName p.name.toList
  parameters : ∀ x ∈ p.parameters, IsName x.toList
  body : AllParsed (Statement.blockFormulas p.body)

/-- What an item is made of is well-formed. -/
def Item.Wellformed : Item → Prop
  | .declaration d => d.Wellformed
  | .statement s => AllParsed s.formulas
  | .procedure p => p.Wellformed

/-- Items that are well-formed. -/
def WellformedItems (items : List Item) : Prop := ∀ item ∈ items, item.Wellformed

theorem wellformedItems_singleton {item : Item} (wellformed : item.Wellformed) :
    WellformedItems [item] :=
  fun _ same => List.mem_singleton.1 same ▸ wellformed

theorem wellformedItems_append {a b : List Item} (first : WellformedItems a)
    (second : WellformedItems b) : WellformedItems (a ++ b) :=
  List.forall_mem_append.2 ⟨first, second⟩

theorem allParsed_singleton {v : SourceFormula} (parsed : Formula.parse v.text = .ok v.formula) :
    AllParsed [v] :=
  fun _ same => List.mem_singleton.1 same ▸ parsed

theorem mem_blockFormulas {statements : List Statement} {v : SourceFormula} :
    v ∈ Statement.blockFormulas statements ↔ ∃ s ∈ statements, v ∈ s.formulas := by
  induction statements with
  | nil => simp [Statement.blockFormulas]
  | cons first rest ih => simp [Statement.blockFormulas, ih]

theorem dropBytes_byteLength (before rest : List Char) :
    dropBytes (byteLength before) (before ++ rest) = rest := by
  induction before with
  | nil => cases rest <;> rfl
  | cons c more ih =>
      have some' : byteLength (c :: more) ≠ 0 := by
        rw [byteLength]
        exact Nat.ne_of_gt (Nat.add_pos_left c.utf8Size_pos _)
      rw [List.cons_append, dropBytes, if_neg some', byteLength, Nat.add_sub_cancel_left, ih]

theorem takeBytes_byteLength (piece rest : List Char) :
    takeBytes (byteLength piece) (piece ++ rest) = piece := by
  induction piece with
  | nil => cases rest <;> rfl
  | cons c more ih =>
      have some' : byteLength (c :: more) ≠ 0 := by
        rw [byteLength]
        exact Nat.ne_of_gt (Nat.add_pos_left c.utf8Size_pos _)
      rw [List.cons_append, takeBytes, if_neg some', byteLength, Nat.add_sub_cancel_left, ih]

theorem slice_piece (before piece behind : List Char) :
    slice (before ++ piece ++ behind) (byteLength before) (byteLength (before ++ piece)) =
      piece := by
  rw [slice, Text.byteLength_append, Nat.add_sub_cancel_left, List.append_assoc,
    dropBytes_byteLength, takeBytes_byteLength]

/-! ## Places between tokens -/

/-- The tokens of a source from a place on where so many brackets are open. -/
def Inside (src : Source) (depth : Nat) (ts : List Token) : Prop :=
  ∃ before, Lexes src.chars before depth ts

/-- The tokens of a source from a place on where no bracket is open. -/
abbrev At (src : Source) (ts : List Token) : Prop := Inside src 0 ts

section Inside

variable {src : Source} {depth next : Nat} {ts rest : List Token}

theorem skip_cons {t : Token} (some' : ts ≠ []) : skip (t :: ts) = ts := by
  cases ts with
  | nil => exact absurd rfl some'
  | cons u rest => rfl

/-- Over a token that opens and closes what it does. -/
theorem Inside.skip (here : Inside src depth ts)
    (turns : ∀ last, (peek ts).kind.Turns depth last → last = next)
    (same : (peek ts).kind.isLayout = true → depth = next) : Inside src next (skip ts) := by
  obtain ⟨before, lexes⟩ := here
  cases lexes with
  | layout layout onward => exact same layout ▸ ⟨_, (skip_cons onward.some').symm ▸ onward⟩
  | last layout => exact same layout ▸ ⟨before, .last layout⟩
  | token shape skipped read turns' start stop dark isName tight onward =>
      obtain rfl := turns _ turns'
      exact ⟨_, (skip_cons onward.some').symm ▸ onward⟩

/-- Over anything but a bracket. -/
theorem Inside.skip_kind {kind : TokenKind} (here : Inside src depth ts)
    (is : (peek ts).kind = kind)
    (level : ∀ m, kind = .mark m → m.opens = false ∧ m.closes = false) :
    Inside src depth (Ppp.skip ts) := by
  refine here.skip (fun last turns => ?_) fun _ => rfl
  rw [is] at turns
  cases kind with
  | mark m =>
      obtain ⟨noOpening, noClosing⟩ := level m rfl
      rw [TokenKind.Turns, noOpening, noClosing] at turns
      exact turns
  | _ => exact turns

theorem Inside.name {name : String} (here : Inside src depth ts)
    (is : (peek ts).kind = .name name) : IsName name.toList := by
  obtain ⟨before, lexes⟩ := here
  cases lexes with
  | layout layout onward =>
      rw [peek] at is
      rw [is] at layout
      cases layout
  | last layout =>
      rw [peek] at is
      rw [is] at layout
      cases layout
  | token shape skipped read turns start stop dark isName tight onward => exact isName name is

theorem Inside.over_name {name : String} (here : Inside src depth ts)
    (is : (peek ts).kind = .name name) : Inside src depth (Ppp.skip ts) :=
  here.skip_kind is fun m mark => by cases mark

theorem kind_of_atMark {m : Mark} (there : atMark m ts = true) : (peek ts).kind = .mark m :=
  eq_of_beq there

theorem Inside.over_mark {m : Mark} (here : Inside src depth ts) (there : (peek ts).kind = .mark m)
    (level : m.opens = false ∧ m.closes = false) : Inside src depth (Ppp.skip ts) :=
  here.skip_kind there fun _ mark => TokenKind.mark.inj mark ▸ level

/-- Over a parenthesis that opens. -/
theorem Inside.opens (here : Inside src depth ts) (there : (peek ts).kind = .mark .openParen) :
    Inside src (depth + 1) (Ppp.skip ts) := by
  refine here.skip (fun last turns => ?_) fun layout => ?_
  · rw [there] at turns
    exact turns
  · rw [there] at layout
    cases layout

/-- Over the parenthesis that closes it. -/
theorem Inside.closes (here : Inside src (depth + 1) ts)
    (there : (peek ts).kind = .mark .closeParen) : Inside src depth (Ppp.skip ts) := by
  refine here.skip (fun last turns => ?_) fun layout => ?_
  · rw [there] at turns
    exact (Nat.succ.inj turns).symm
  · rw [there] at layout
    cases layout

theorem Inside.expect {m : Mark} (here : Inside src depth ts)
    (level : m.opens = false ∧ m.closes = false) (expected : expect m ts = .ok rest) :
    Inside src depth rest := by
  unfold Ppp.expect at expected
  split at expected
  · rename_i there
    obtain rfl := Except.ok.inj expected
    exact here.over_mark (kind_of_atMark there) level
  · cases expected

theorem Inside.expectName {name : String} (here : Inside src depth ts)
    (expected : expectName ts = .ok (name, rest)) : Inside src depth rest ∧ IsName name.toList := by
  unfold Ppp.expectName at expected
  split at expected
  · rename_i found is
    obtain ⟨rfl, rfl⟩ := Prod.mk.inj (Except.ok.inj expected)
    exact ⟨here.over_name is, here.name is⟩
  · cases expected

theorem length_skip (ts : List Token) : (skip ts).length ≤ ts.length := by
  unfold skip
  split <;> simp

theorem length_of_expect {m : Mark} (expected : expect m ts = .ok rest) :
    rest.length ≤ ts.length := by
  unfold Ppp.expect at expected
  split at expected
  · exact Except.ok.inj expected ▸ length_skip ts
  · cases expected

/-- No name is the last token. -/
theorem Inside.shorter_of_name {name : String} (here : Inside src depth ts)
    (expected : Ppp.expectName ts = .ok (name, rest)) : rest.length < ts.length := by
  unfold Ppp.expectName at expected
  split at expected
  · rename_i found is
    obtain ⟨rfl, rfl⟩ := Prod.mk.inj (Except.ok.inj expected)
    obtain ⟨before, lexes⟩ := here
    cases lexes with
    | layout layout onward =>
        rw [peek] at is
        rw [is] at layout
        cases layout
    | last layout =>
        rw [peek] at is
        rw [is] at layout
        cases layout
    | token shape skipped read turns start stop dark isName tight onward =>
        rw [skip_cons onward.some']
        exact Nat.lt_succ_self _
  · cases expected

end Inside

/-! ## Formulas -/

section Formulas

variable {source before : List Char} {stops : List Mark} {ts rest : List Token}
  {outer depth next stop : Nat}

/-- A token either ends a formula or belongs to it. -/
theorem formulaExtent_cons (stops : List Mark) (stop : Nat) (ts : List Token) {t : Token}
    (dark : t.kind.isLayout = false) (turns : t.kind.Turns (outer + depth) next) :
    depth = 0 ∧ formulaExtent stops depth stop (t :: ts) = (stop, t :: ts) ∨
      ∃ inner, next = outer + inner ∧
        formulaExtent stops depth stop (t :: ts) = formulaExtent stops inner t.stop ts := by
  rw [formulaExtent.eq_def]
  dsimp only
  cases kind : t.kind with
  | newline | indent | dedent | eof =>
      rw [kind] at dark
      cases dark
  | mark m =>
      rw [kind, TokenKind.Turns] at turns
      dsimp only
      split
      · rename_i ends
        exact .inl ⟨ends.1, rfl⟩
      · split at turns
        · rename_i opens
          rw [if_pos opens]
          exact .inr ⟨depth + 1, turns, rfl⟩
        · rename_i noOpening
          rw [if_neg noOpening]
          split at turns
          · rename_i closes
            rw [if_pos closes]
            cases depth with
            | zero => exact .inl ⟨rfl, rfl⟩
            | succ inner => exact .inr ⟨inner, by omega, rfl⟩
          · rename_i noClosing
            rw [if_neg noClosing]
            exact .inr ⟨depth, turns, rfl⟩
  | _ =>
      rw [kind] at turns
      exact .inr ⟨depth, turns, rfl⟩

theorem formulaExtent_layout {t : Token} (layout : t.kind.isLayout = true) :
    formulaExtent stops depth stop (t :: ts) = (stop, t :: ts) := by
  rw [formulaExtent.eq_def]
  dsimp only
  cases kind : t.kind with
  | newline | indent | dedent | eof => rfl
  | _ =>
      rw [kind] at layout
      cases layout

/-- What belongs to a formula is a piece of its line that closes all brackets, and ends
with a token. -/
theorem extent_of_lexes {behind : List Char} {level : Nat} (lexes : Lexes source before level ts)
    (open' : level = outer + depth) (shape : source = before ++ behind)
    (found : formulaExtent stops depth (byteLength before) ts = (stop, rest)) :
    ∃ body behind, source = before ++ body ++ behind ∧ Body (outer + depth) body outer ∧
      stop = byteLength (before ++ body) ∧ (∀ c, body.getLast? = some c → isBlank c = false) ∧
        Lexes source (before ++ body) outer rest := by
  have ended : ∀ {before behind ts}, source = before ++ behind → Lexes source before outer ts →
      ∃ body behind, source = before ++ body ++ behind ∧ Body (outer + 0) body outer ∧
        byteLength before = byteLength (before ++ body) ∧
          (∀ c, body.getLast? = some c → isBlank c = false) ∧
            Lexes source (before ++ body) outer ts := by
    intro before behind ts shape lexes
    refine ⟨[], behind, ?_, .nil, ?_, fun c last => (by cases last), ?_⟩
    · rwa [List.append_nil]
    · rw [List.append_nil]
    · rwa [List.append_nil]
  induction lexes generalizing behind stop depth with
  | layout layout onward =>
      obtain ⟨rfl, rfl⟩ : outer = 0 ∧ depth = 0 := by omega
      rw [formulaExtent_layout layout] at found
      obtain ⟨rfl, rfl⟩ := Prod.mk.inj found
      exact ended shape (.layout layout onward)
  | last layout =>
      obtain ⟨rfl, rfl⟩ : outer = 0 ∧ depth = 0 := by omega
      rw [formulaExtent_layout layout] at found
      obtain ⟨rfl, rfl⟩ := Prod.mk.inj found
      exact ended shape (.last layout)
  | @token before gap piece after _ next t ts cut skipped read turns start stop' dark isName tight
      onward ih =>
      subst open'
      rcases formulaExtent_cons stops (byteLength before) ts dark turns
        with ⟨rfl, ends⟩ | ⟨inner, rfl, goes⟩
      · rw [ends] at found
        obtain ⟨rfl, rfl⟩ := Prod.mk.inj found
        exact ended shape (.token cut skipped read turns start stop' dark isName tight onward)
      · rw [goes, stop'] at found
        obtain ⟨body, behind', shape', closes, stops', ends, lexes⟩ := ih rfl cut found
        refine ⟨gap ++ piece ++ body, behind', ?_, (skipped.append read).append closes, ?_, ?_, ?_⟩
        · simpa [List.append_assoc] using shape'
        · simpa [List.append_assoc] using stops'
        · intro c last
          rw [List.append_assoc, List.getLast?_append, Option.or_eq_some_iff] at last
          rcases last with here | ⟨empty, _⟩
          · exact (tight.append ends).last c here
          · obtain ⟨d, starts, _⟩ := tight.first
            cases piece <;> simp at starts empty
        · simpa [List.append_assoc] using lexes

theorem getLast?_cons {α : Type} {x : α} {xs : List α} (some' : xs ≠ []) :
    (x :: xs).getLast? = xs.getLast? := by
  obtain ⟨y, ys, rfl⟩ := List.exists_cons_of_ne_nil some'
  exact List.getLast?_cons_cons

theorem blankContinuations_ne_nil {cs : List Char} (some' : cs ≠ []) :
    blankContinuations cs ≠ [] := by
  unfold blankContinuations
  split
  · exact List.cons_ne_nil _ _
  · exact List.cons_ne_nil _ _
  · exact List.cons_ne_nil _ _
  · exact absurd rfl some'

/-- Joining continued lines leaves the end of a piece. -/
theorem last_blankContinuations {cs : List Char}
    (ends : ∀ c, cs.getLast? = some c → isBlank c = false) :
    ∀ c, (blankContinuations cs).getLast? = some c → isBlank c = false := by
  fun_induction blankContinuations cs with
  | case1 rest ih | case2 rest ih =>
      cases rest with
      | nil => exact absurd (ends '\n' rfl) (by decide)
      | cons d more =>
          have some' := blankContinuations_ne_nil (List.cons_ne_nil d more)
          simpa [getLast?_cons some'] using ih fun c last => ends c (by simpa using last)
  | case3 c rest _ _ ih =>
      intro d last
      cases rest with
      | nil => exact ends d last
      | cons e more =>
          rw [getLast?_cons (blankContinuations_ne_nil (List.cons_ne_nil e more))] at last
          exact ih (fun c last => ends c (by simpa using last)) d last
  | case4 => exact ends

theorem Tight.blankContinuations {cs : List Char} (tight : Tight cs) :
    Tight (blankContinuations cs) where
  first := by
    obtain ⟨c, starts, solid⟩ := tight.first
    obtain ⟨rest, rfl⟩ := List.head?_eq_some_iff.1 starts
    refine ⟨c, ?_, solid⟩
    rw [Ppp.blankContinuations]
    · rfl
    · exact fun _ slash => absurd slash solid.2
    · exact fun _ slash => absurd slash solid.2
  last := last_blankContinuations tight.last

/-- **The text of a formula is a piece of its line.** -/
theorem inside_of_parseFormula {src : Source} {v : SourceFormula} (here : Inside src outer ts)
    (parsed : parseFormula src stops ts = .ok (v, rest)) :
    Inside src outer rest ∧ Formula.parse v.text = .ok v.formula ∧
      ∃ body, Body outer body outer ∧ Tight body ∧
        v.text = String.ofList (blankContinuations body) := by
  obtain ⟨before, lexes⟩ := here
  unfold parseFormula at parsed
  dsimp only at parsed
  rcases found : formulaExtent stops 0 (peek ts).start ts with ⟨stop, behind⟩
  rw [found] at parsed
  dsimp only at parsed
  split at parsed
  · cases parsed
  · rename_i some'
    obtain ⟨formula, read, result⟩ := bind_eq_ok.1 parsed
    obtain ⟨rfl, rfl⟩ := Prod.mk.inj (Except.ok.inj result)
    have parsed' := ok_of_mapError read
    cases lexes with
    | layout layout onward =>
        rw [formulaExtent_layout layout] at found
        exact absurd (Prod.mk.inj found).1.symm some'
    | last layout =>
        rw [formulaExtent_layout layout] at found
        exact absurd (Prod.mk.inj found).1.symm some'
    | @token _ gap piece after _ next t ts cut skipped opening turns start stop' dark isName tight
        onward =>
        have turns' : t.kind.Turns (outer + 0) next := turns
        rcases formulaExtent_cons stops t.start ts dark turns'
          with ⟨_, ends⟩ | ⟨inner, rfl, goes⟩
        · exact absurd (Prod.mk.inj (ends.symm.trans found)).1.symm some'
        · have found' := goes.symm.trans found
          rw [stop'] at found'
          obtain ⟨body, behind', shape, closes, rfl, ends, lexes⟩ :=
            extent_of_lexes onward rfl cut found'
          refine ⟨⟨_, lexes⟩, parsed', piece ++ body, opening.append closes, tight.append ends, ?_⟩
          show String.ofList (blankContinuations (slice src.chars t.start _)) = _
          rw [start, shape,
            show before ++ gap ++ piece ++ body = before ++ gap ++ (piece ++ body) by
              simp [List.append_assoc], slice_piece]

/-- Outside of brackets the text of a formula closes what it opens. -/
theorem wellformed_of_parseFormula {src : Source} {v : SourceFormula} (here : At src ts)
    (parsed : parseFormula src stops ts = .ok (v, rest)) : At src rest ∧ v.Wellformed := by
  obtain ⟨there, parsed', body, closed, tight, text⟩ := inside_of_parseFormula here parsed
  refine ⟨there, parsed', ⟨body, closed, text⟩, ?_⟩
  rw [text, String.toList_ofList]
  exact tight.blankContinuations

end Formulas

/-! ## Simple statements and declarations -/

section Simple

variable {src : Source} {ts rest : List Token}

theorem not_unexpected {α : Type} {result : α} : ¬ unexpected src ts = .ok result := by
  intro parsed
  unfold unexpected at parsed
  dsimp only at parsed
  split at parsed <;> cases parsed

/-- Over the arguments of a call and the parenthesis that closes it. -/
theorem at_of_parseArguments {fuel : Nat} {keywordSeen : Bool} {arguments : List Argument}
    (here : Inside src 1 ts)
    (parsed : parseArguments src fuel keywordSeen ts = .ok (arguments, rest)) :
    At src rest ∧ AllParsed (arguments.map (·.value)) := by
  induction fuel generalizing ts keywordSeen arguments with
  | zero => exact absurd parsed not_unexpected
  | succ fuel ih =>
      rw [parseArguments] at parsed
      split at parsed
      · rename_i closes
        obtain ⟨rfl, rfl⟩ := Prod.mk.inj (Except.ok.inj parsed)
        exact ⟨here.closes (kind_of_atMark closes), fun v there => absurd there List.not_mem_nil⟩
      · split at parsed
        rename_i keyword ts' chosen
        -- a keyword is stepped over
        have there : Inside src 1 ts' := by
          split at chosen
          · rename_i name is
            split at chosen
            · rename_i assigns
              exact (Prod.mk.inj chosen).2 ▸
                (here.over_name is).over_mark (kind_of_atMark assigns) (by decide)
            · exact (Prod.mk.inj chosen).2 ▸ here
          · exact (Prod.mk.inj chosen).2 ▸ here
        split at parsed
        · cases parsed
        · obtain ⟨⟨value, ts₁⟩, read, onward⟩ := bind_eq_ok.1 parsed
          obtain ⟨behind, formula, _⟩ := inside_of_parseFormula there read
          have onMore : ∀ {ts₂ : List Token} {more : List Argument}, Inside src 1 ts₂ →
              parseArguments src fuel (keywordSeen || keyword.isSome) ts₂ = .ok (more, rest) →
                At src rest ∧ AllParsed ((⟨keyword, value⟩ :: more).map (·.value)) := by
            intro ts₂ more next further
            obtain ⟨last, others⟩ := ih next further
            exact ⟨last, List.forall_mem_cons.2 ⟨formula, others⟩⟩
          dsimp only at onward
          split at onward
          · obtain ⟨ts₂, same, onward⟩ := bind_eq_ok.1 onward
            obtain rfl := Except.ok.inj same
            obtain ⟨⟨more, ts₃⟩, further, result⟩ := bind_eq_ok.1 onward
            obtain ⟨rfl, rfl⟩ := Prod.mk.inj (Except.ok.inj result)
            exact onMore behind further
          · obtain ⟨ts₂, expected, onward⟩ := bind_eq_ok.1 onward
            obtain ⟨⟨more, ts₃⟩, further, result⟩ := bind_eq_ok.1 onward
            obtain ⟨rfl, rfl⟩ := Prod.mk.inj (Except.ok.inj result)
            exact onMore (behind.expect (by decide) expected) further

theorem at_of_parseNamed {position : Position} {name : String} {s : Statement}
    (here : At src ts) (parsed : parseNamed src position name ts = .ok (s, rest)) :
    At src rest ∧ AllParsed s.formulas := by
  unfold parseNamed at parsed
  split at parsed
  · rename_i is
    obtain ⟨⟨arguments, behind⟩, read, result⟩ := bind_eq_ok.1 parsed
    obtain ⟨rfl, rfl⟩ := Prod.mk.inj (Except.ok.inj result)
    rw [Statement.formulas]
    exact at_of_parseArguments (here.opens is) read
  · rename_i is
    obtain ⟨⟨value, behind⟩, read, result⟩ := bind_eq_ok.1 parsed
    obtain ⟨rfl, rfl⟩ := Prod.mk.inj (Except.ok.inj result)
    obtain ⟨there, formula, _⟩ := inside_of_parseFormula (here.over_mark is (by decide)) read
    rw [Statement.formulas]
    exact ⟨there, allParsed_singleton formula⟩
  · rename_i m _ _ is
    split at parsed
    · rename_i op found
      obtain ⟨⟨value, behind⟩, read, result⟩ := bind_eq_ok.1 parsed
      obtain ⟨rfl, rfl⟩ := Prod.mk.inj (Except.ok.inj result)
      have level : m.opens = false ∧ m.closes = false := by
        cases m <;> first
          | exact ⟨rfl, rfl⟩
          | cases found
      obtain ⟨there, formula, _⟩ := inside_of_parseFormula (here.over_mark is level) read
      rw [Statement.formulas]
      exact ⟨there, allParsed_singleton formula⟩
    · exact absurd parsed not_unexpected
  · exact absurd parsed not_unexpected

theorem at_of_parseSimple {s : Statement} (here : At src ts)
    (parsed : parseSimple src ts = .ok (s, rest)) (noAssembly : hasAssembly s = false) :
    At src rest ∧ AllParsed s.formulas := by
  have none' : AllParsed [] := fun v there => absurd there List.not_mem_nil
  unfold parseSimple at parsed
  dsimp only at parsed
  split at parsed
  · rename_i is
    obtain ⟨rfl, rfl⟩ := Prod.mk.inj (Except.ok.inj parsed)
    rw [Statement.formulas]
    exact ⟨here.over_name is, none'⟩
  · rename_i is
    split at parsed
    · obtain ⟨rfl, rfl⟩ := Prod.mk.inj (Except.ok.inj parsed)
      rw [Statement.formulas]
      exact ⟨here.over_name is, none'⟩
    · obtain ⟨⟨value, behind⟩, read, result⟩ := bind_eq_ok.1 parsed
      obtain ⟨rfl, rfl⟩ := Prod.mk.inj (Except.ok.inj result)
      obtain ⟨there, formula, _⟩ := inside_of_parseFormula (here.over_name is) read
      rw [Statement.formulas]
      exact ⟨there, allParsed_singleton formula⟩
  · rename_i name _ _ is
    split at parsed
    · obtain ⟨rfl, _⟩ := Prod.mk.inj (Except.ok.inj parsed)
      rw [hasAssembly] at noAssembly
      cases noAssembly
    · exact at_of_parseNamed (here.over_name is) parsed
  · exact absurd parsed not_unexpected

theorem at_of_parseEncoding {kind : DeclarationKind} {encoding : Option String} (here : At src ts)
    (parsed : parseEncoding kind ts = .ok (encoding, rest)) :
    At src rest ∧ ∀ name, encoding = some name → IsName name.toList := by
  unfold parseEncoding at parsed
  split at parsed
  · rename_i opens
    obtain ⟨⟨name, behind⟩, read, onward⟩ := bind_eq_ok.1 parsed
    obtain ⟨after, expected, result⟩ := bind_eq_ok.1 onward
    obtain ⟨rfl, rfl⟩ := Prod.mk.inj (Except.ok.inj result)
    obtain ⟨there, isName⟩ := (here.over_mark (kind_of_atMark opens.2) (by decide)).expectName read
    exact ⟨there.expect (by decide) expected, fun other same => Option.some.inj same ▸ isName⟩
  · obtain ⟨rfl, rfl⟩ := Prod.mk.inj (Except.ok.inj parsed)
    exact ⟨here, fun name same => by cases same⟩

theorem at_of_parseAttributes {fuel : Nat} {attributes : List (String × Position)}
    (here : At src ts) (parsed : parseAttributes fuel ts = .ok (attributes, rest)) :
    At src rest ∧ ∀ a ∈ attributes, IsName a.1.toList := by
  induction fuel generalizing ts attributes with
  | zero =>
      obtain ⟨rfl, rfl⟩ := Prod.mk.inj (Except.ok.inj parsed)
      exact ⟨here, fun a there => absurd there List.not_mem_nil⟩
  | succ fuel ih =>
      rw [parseAttributes] at parsed
      split at parsed
      · rename_i comma
        obtain ⟨⟨name, behind⟩, read, onward⟩ := bind_eq_ok.1 parsed
        obtain ⟨⟨more, after⟩, further, result⟩ := bind_eq_ok.1 onward
        obtain ⟨rfl, rfl⟩ := Prod.mk.inj (Except.ok.inj result)
        obtain ⟨there, isName⟩ :=
          (here.over_mark (kind_of_atMark comma) (by decide)).expectName read
        obtain ⟨last, names⟩ := ih there further
        refine ⟨last, fun a there => ?_⟩
        rcases List.mem_cons.1 there with rfl | there
        · exact isName
        · exact names a there
      · obtain ⟨rfl, rfl⟩ := Prod.mk.inj (Except.ok.inj parsed)
        exact ⟨here, fun a there => absurd there List.not_mem_nil⟩

theorem at_of_parseValue {value : Option SourceFormula} (here : At src ts)
    (parsed : parseValue src ts = .ok (value, rest)) :
    At src rest ∧ ∀ v, value = some v → v.Wellformed := by
  unfold parseValue at parsed
  split at parsed
  · rename_i assigns
    obtain ⟨⟨v, behind⟩, read, result⟩ := bind_eq_ok.1 parsed
    obtain ⟨rfl, rfl⟩ := Prod.mk.inj (Except.ok.inj result)
    obtain ⟨there, wellformed⟩ :=
      wellformed_of_parseFormula (here.over_mark (kind_of_atMark assigns) (by decide)) read
    exact ⟨there, fun other same => Option.some.inj same ▸ wellformed⟩
  · obtain ⟨rfl, rfl⟩ := Prod.mk.inj (Except.ok.inj parsed)
    exact ⟨here, fun v same => by cases same⟩

theorem wellformed_of_parseDeclaration {kind : DeclarationKind} {keyword : String}
    {d : Declaration} (here : At src ts) (is : (peek ts).kind = .name keyword)
    (parsed : parseDeclaration src kind ts = .ok (d, rest)) : At src rest ∧ d.Wellformed := by
  unfold parseDeclaration at parsed
  obtain ⟨⟨encoding, ts₁⟩, encoded, onward⟩ := bind_eq_ok.1 parsed
  obtain ⟨⟨name, ts₂⟩, named, onward⟩ := bind_eq_ok.1 onward
  obtain ⟨⟨value, ts₃⟩, valued, onward⟩ := bind_eq_ok.1 onward
  dsimp only at onward
  split at onward
  · cases onward
  · obtain ⟨⟨attributes, ts₄⟩, attributed, result⟩ := bind_eq_ok.1 onward
    obtain ⟨rfl, rfl⟩ := Prod.mk.inj (Except.ok.inj result)
    obtain ⟨at₁, isEncoding⟩ := at_of_parseEncoding (here.over_name is) encoded
    obtain ⟨at₂, isName⟩ := at₁.expectName named
    obtain ⟨at₃, isValue⟩ := at_of_parseValue at₂ valued
    obtain ⟨at₄, areNames⟩ := at_of_parseAttributes at₃ attributed
    exact ⟨at₄, isName, isValue, areNames, isEncoding⟩

theorem name_of_declaration? {kind : DeclarationKind} (found : declaration? ts = some kind) :
    ∃ keyword, (peek ts).kind = .name keyword := by
  unfold declaration? at found
  split at found
  · exact ⟨_, ‹_›⟩
  · cases found

/-- Items without assembly text; only at the top of a source there are procedures. -/
structure NoAssembly (top : Bool) (items : List Item) : Prop where
  statement : ∀ s, .statement s ∈ items → hasAssembly s = false
  procedure : top = true → ∀ p, .procedure p ∈ items → blockAssembly p.body = false

theorem NoAssembly.subset {top : Bool} {items others : List Item} (all : NoAssembly top items)
    (part : others ⊆ items) : NoAssembly top others :=
  ⟨fun s there => all.statement s (part there),
    fun atTop p there => all.procedure atTop p (part there)⟩

theorem at_of_parseSimpleItem {top : Bool} {item : Item} (here : At src ts)
    (parsed : parseSimpleItem src top ts = .ok (item, rest)) (plain : NoAssembly top [item]) :
    At src rest ∧ WellformedItems [item] := by
  unfold parseSimpleItem at parsed
  split at parsed
  · rename_i kind found
    split at parsed
    · obtain ⟨⟨d, behind⟩, read, result⟩ := bind_eq_ok.1 parsed
      obtain ⟨rfl, rfl⟩ := Prod.mk.inj (Except.ok.inj result)
      obtain ⟨keyword, is⟩ := name_of_declaration? found
      obtain ⟨there, wellformed⟩ := wellformed_of_parseDeclaration here is read
      exact ⟨there, wellformedItems_singleton wellformed⟩
    · cases parsed
  · obtain ⟨⟨s, behind⟩, read, result⟩ := bind_eq_ok.1 parsed
    obtain ⟨rfl, rfl⟩ := Prod.mk.inj (Except.ok.inj result)
    obtain ⟨there, wellformed⟩ :=
      at_of_parseSimple here read (plain.statement s (List.mem_singleton.2 rfl))
    exact ⟨there, wellformedItems_singleton wellformed⟩

theorem at_of_parseSimpleItems {top : Bool} {fuel : Nat} {items : List Item} (here : At src ts)
    (parsed : parseSimpleItems src top fuel ts = .ok (items, rest))
    (plain : NoAssembly top items) : At src rest ∧ WellformedItems items := by
  induction fuel generalizing ts items with
  | zero => exact absurd parsed not_unexpected
  | succ fuel ih =>
      rw [parseSimpleItems] at parsed
      obtain ⟨⟨item, behind⟩, first, onward⟩ := bind_eq_ok.1 parsed
      dsimp only at onward
      split at onward
      · rename_i semicolon
        split at onward
        · obtain ⟨rfl, rfl⟩ := Prod.mk.inj (Except.ok.inj onward)
          obtain ⟨there, wellformed⟩ := at_of_parseSimpleItem here first plain
          exact ⟨there.over_mark (kind_of_atMark semicolon) (by decide), wellformed⟩
        · obtain ⟨⟨more, after⟩, further, result⟩ := bind_eq_ok.1 onward
          obtain ⟨rfl, rfl⟩ := Prod.mk.inj (Except.ok.inj result)
          obtain ⟨there, wellformed⟩ := at_of_parseSimpleItem here first
            (plain.subset (List.cons_subset_cons _ (List.nil_subset _)))
          obtain ⟨last, others⟩ := ih (there.over_mark (kind_of_atMark semicolon) (by decide))
            further (plain.subset (List.subset_cons_self _ _))
          exact ⟨last, wellformedItems_append wellformed others⟩
      · obtain ⟨rfl, rfl⟩ := Prod.mk.inj (Except.ok.inj onward)
        exact at_of_parseSimpleItem here first plain

theorem at_of_endLine (here : At src ts) (ended : endLine src ts = .ok rest) : At src rest := by
  unfold endLine at ended
  split at ended
  · rename_i newline
    obtain rfl := Except.ok.inj ended
    exact here.skip_kind newline fun m mark => by cases mark
  · exact Except.ok.inj ended ▸ here
  · exact Except.ok.inj ended ▸ here
  · exact absurd ended not_unexpected

end Simple

/-! ## Blocks -/

section Blocks

variable {src : Source} {ts rest : List Token}

theorem blockAssembly_iff {statements : List Statement} :
    blockAssembly statements = false ↔ ∀ s ∈ statements, hasAssembly s = false := by
  induction statements with
  | nil => exact ⟨fun _ s there => absurd there List.not_mem_nil, fun _ => rfl⟩
  | cons first rest ih =>
      rw [blockAssembly, Bool.or_eq_false_iff, ih]
      exact (List.forall_mem_cons (p := fun s => hasAssembly s = false)).symm

theorem mem_statements {items : List Item} {s : Statement} :
    s ∈ statements items ↔ .statement s ∈ items := by
  rw [statements, List.mem_filterMap]
  constructor
  · rintro ⟨item, there, found⟩
    cases item with
    | statement s' =>
        obtain rfl := Option.some.inj found
        exact there
    | _ => cases found
  · exact fun there => ⟨_, there, rfl⟩

/-- The statements of a block are items below the top of a source. -/
theorem noAssembly_of_block {items : List Item} (plain : blockAssembly (statements items) = false) :
    NoAssembly false items :=
  ⟨fun s there => blockAssembly_iff.1 plain s (mem_statements.2 there), fun top => by cases top⟩

theorem parsed_statements {items : List Item} (wellformed : WellformedItems items) :
    AllParsed (Statement.blockFormulas (statements items)) := by
  intro v there
  obtain ⟨s, inItems, of⟩ := mem_blockFormulas.1 there
  exact wellformed _ (mem_statements.1 inItems) v of

/-- Over the parameters of a procedure and the parenthesis that closes them. -/
theorem at_of_parseParameters {fuel : Nat} {known parameters : List String}
    (here : Inside src 1 ts) (parsed : parseParameters fuel known ts = .ok (parameters, rest))
    (enough : ts.length < fuel) (names : ∀ x ∈ known, IsName x.toList) :
    At src rest ∧ ∀ x ∈ parameters, IsName x.toList := by
  induction fuel generalizing ts known with
  | zero => exact absurd enough (Nat.not_lt_zero _)
  | succ fuel ih =>
      rw [parseParameters] at parsed
      split at parsed
      · rename_i closes
        obtain ⟨rfl, rfl⟩ := Prod.mk.inj (Except.ok.inj parsed)
        exact ⟨here.closes (kind_of_atMark closes), names⟩
      · obtain ⟨⟨name, ts₁⟩, named, onward⟩ := bind_eq_ok.1 parsed
        obtain ⟨at₁, isName⟩ := here.expectName named
        dsimp only at onward
        split at onward
        · cases onward
        · have known' : ∀ x ∈ known ++ [name], IsName x.toList := by
            intro x there
            rcases List.mem_append.1 there with old | new
            · exact names x old
            · exact List.mem_singleton.1 new ▸ isName
          have shorter := here.shorter_of_name named
          split at onward
          · exact ih at₁ onward (by omega) known'
          · obtain ⟨ts₂, expected, onward⟩ := bind_eq_ok.1 onward
            have no_longer := length_of_expect expected
            exact ih (at₁.expect (by decide) expected) onward (by omega) known'

/-- Further branches, and the statements behind `else`. -/
abbrev Branching := List (SourceFormula × List Statement) × List Statement

/-- What the parser of blocks does with tokens in their places. -/
structure ParsesBlocks (src : Source) (fuel : Nat) : Prop where
  line : ∀ {top ts items rest}, parseLine src fuel top ts = .ok (items, rest) → At src ts →
    NoAssembly top items → At src rest ∧ WellformedItems items
  branches : ∀ {ts} {branching : Branching} {rest},
    parseBranches src fuel ts = .ok (branching, rest) → At src ts →
      branchesAssembly branching.1 = false → blockAssembly branching.2 = false →
        At src rest ∧ AllParsed (Statement.branchFormulas branching.1 ++
          Statement.blockFormulas branching.2)
  block : ∀ {ts body rest}, parseBlock src fuel ts = .ok (body, rest) → At src ts →
    blockAssembly body = false → At src rest ∧ AllParsed (Statement.blockFormulas body)
  body : ∀ {ts items rest}, parseBody src fuel ts = .ok (items, rest) → At src ts →
    NoAssembly false items → At src rest ∧ WellformedItems items

variable {fuel : Nat} (parses : ParsesBlocks src fuel)
include parses

/-- A condition and its block. -/
theorem ParsesBlocks.conditional {stops : List Mark} {condition : SourceFormula} {ts₁ : List Token}
    {body : List Statement} (here : At src ts)
    (read : parseFormula src stops ts = .ok (condition, ts₁))
    (blocked : parseBlock src fuel ts₁ = .ok (body, rest))
    (plain : blockAssembly body = false) :
    At src rest ∧ AllParsed (condition :: Statement.blockFormulas body) := by
  obtain ⟨there, formula, _⟩ := inside_of_parseFormula here read
  obtain ⟨behind, inside⟩ := parses.block blocked there plain
  exact ⟨behind, List.forall_mem_cons.2 ⟨formula, inside⟩⟩

theorem ParsesBlocks.step_line {top : Bool} {items : List Item}
    (parsed : parseLine src (fuel + 1) top ts = .ok (items, rest)) (here : At src ts)
    (plain : NoAssembly top items) : At src rest ∧ WellformedItems items := by
  rw [parseLine] at parsed
  dsimp only at parsed
  split at parsed
  · rename_i is
    split at parsed
    · rename_i atTop
      obtain ⟨⟨name, ts₁⟩, named, onward⟩ := bind_eq_ok.1 parsed
      obtain ⟨ts₂, opened, onward⟩ := bind_eq_ok.1 onward
      obtain ⟨⟨parameters, ts₃⟩, listed, onward⟩ := bind_eq_ok.1 onward
      obtain ⟨⟨body, ts₄⟩, blocked, result⟩ := bind_eq_ok.1 onward
      obtain ⟨rfl, rfl⟩ := Prod.mk.inj (Except.ok.inj result)
      obtain ⟨at₁, isName⟩ := (here.over_name is).expectName named
      have at₂ : Inside src 1 ts₂ := by
        unfold Ppp.expect at opened
        split at opened
        · rename_i opens
          exact Except.ok.inj opened ▸ at₁.opens (kind_of_atMark opens)
        · cases opened
      obtain ⟨at₃, areNames⟩ := at_of_parseParameters at₂ listed (Nat.lt_succ_self _)
        fun x there => absurd there List.not_mem_nil
      obtain ⟨at₄, inside⟩ := parses.block blocked at₃
        (plain.procedure atTop _ (List.mem_singleton.2 rfl))
      exact ⟨at₄, wellformedItems_singleton ⟨isName, areNames, inside⟩⟩
    · cases parsed
  · rename_i is
    obtain ⟨⟨condition, ts₁⟩, read, onward⟩ := bind_eq_ok.1 parsed
    obtain ⟨⟨body, ts₂⟩, blocked, onward⟩ := bind_eq_ok.1 onward
    obtain ⟨⟨⟨branches, otherwise⟩, ts₃⟩, branched, result⟩ := bind_eq_ok.1 onward
    obtain ⟨rfl, rfl⟩ := Prod.mk.inj (Except.ok.inj result)
    have plain' := plain.statement _ (List.mem_singleton.2 rfl)
    simp only [hasAssembly, branchesAssembly, Bool.or_eq_false_iff] at plain'
    obtain ⟨there, first⟩ := parses.conditional (here.over_name is) read blocked plain'.1.1
    obtain ⟨behind, others⟩ := parses.branches branched there plain'.1.2 plain'.2
    refine ⟨behind, wellformedItems_singleton ?_⟩
    show AllParsed (Statement.formulas _)
    rw [Statement.formulas, Statement.branchFormulas]
    exact List.append_assoc (_ :: _) .. ▸ List.forall_mem_append.2 ⟨first, others⟩
  · rename_i is
    obtain ⟨⟨condition, ts₁⟩, read, onward⟩ := bind_eq_ok.1 parsed
    obtain ⟨⟨body, ts₂⟩, blocked, result⟩ := bind_eq_ok.1 onward
    obtain ⟨rfl, rfl⟩ := Prod.mk.inj (Except.ok.inj result)
    have plain' := plain.statement _ (List.mem_singleton.2 rfl)
    rw [hasAssembly] at plain'
    obtain ⟨behind, inside⟩ := parses.conditional (here.over_name is) read blocked plain'
    refine ⟨behind, wellformedItems_singleton ?_⟩
    show AllParsed (Statement.formulas _)
    rwa [Statement.formulas]
  · obtain ⟨⟨items', ts₁⟩, simple, onward⟩ := bind_eq_ok.1 parsed
    obtain ⟨ts₂, ended, result⟩ := bind_eq_ok.1 onward
    obtain ⟨rfl, rfl⟩ := Prod.mk.inj (Except.ok.inj result)
    obtain ⟨there, wellformed⟩ := at_of_parseSimpleItems here simple plain
    exact ⟨at_of_endLine there ended, wellformed⟩

theorem ParsesBlocks.step_branches {branching : Branching}
    (parsed : parseBranches src (fuel + 1) ts = .ok (branching, rest)) (here : At src ts)
    (plain : branchesAssembly branching.1 = false) (plainLast : blockAssembly branching.2 = false) :
    At src rest ∧ AllParsed (Statement.branchFormulas branching.1 ++
      Statement.blockFormulas branching.2) := by
  rw [parseBranches] at parsed
  split at parsed
  · rename_i elif
    obtain ⟨⟨condition, ts₁⟩, read, onward⟩ := bind_eq_ok.1 parsed
    obtain ⟨⟨body, ts₂⟩, blocked, onward⟩ := bind_eq_ok.1 onward
    obtain ⟨⟨⟨branches, otherwise⟩, ts₃⟩, branched, result⟩ := bind_eq_ok.1 onward
    obtain ⟨rfl, rfl⟩ := Prod.mk.inj (Except.ok.inj result)
    simp only [branchesAssembly, Bool.or_eq_false_iff] at plain
    obtain ⟨there, first⟩ :=
      parses.conditional (here.over_name (eq_of_beq elif)) read blocked plain.1
    obtain ⟨behind, others⟩ := parses.branches branched there plain.2 plainLast
    refine ⟨behind, ?_⟩
    rw [Statement.branchFormulas]
    exact List.append_assoc (_ :: _) .. ▸ List.forall_mem_append.2 ⟨first, others⟩
  · split at parsed
    · rename_i «else»
      obtain ⟨⟨otherwise, ts₁⟩, blocked, result⟩ := bind_eq_ok.1 parsed
      obtain ⟨rfl, rfl⟩ := Prod.mk.inj (Except.ok.inj result)
      exact parses.block blocked (here.over_name (eq_of_beq «else»)) plainLast
    · obtain ⟨rfl, rfl⟩ := Prod.mk.inj (Except.ok.inj parsed)
      exact ⟨here, fun v there => (by cases there)⟩

theorem ParsesBlocks.step_block {body : List Statement}
    (parsed : parseBlock src (fuel + 1) ts = .ok (body, rest)) (here : At src ts)
    (plain : blockAssembly body = false) :
    At src rest ∧ AllParsed (Statement.blockFormulas body) := by
  rw [parseBlock] at parsed
  obtain ⟨ts₁, expected, onward⟩ := bind_eq_ok.1 parsed
  have there := here.expect (by decide) expected
  split at onward
  · rename_i newline
    dsimp only at onward
    split at onward
    · rename_i indent
      obtain ⟨⟨items, ts₂⟩, lines, result⟩ := bind_eq_ok.1 onward
      obtain ⟨rfl, rfl⟩ := Prod.mk.inj (Except.ok.inj result)
      have behind := (there.skip_kind newline fun m mark => by cases mark).skip_kind indent
        fun m mark => by cases mark
      obtain ⟨last, wellformed⟩ := parses.body lines behind (noAssembly_of_block plain)
      exact ⟨last, parsed_statements wellformed⟩
    · cases onward
  · obtain ⟨⟨items, ts₂⟩, line, result⟩ := bind_eq_ok.1 onward
    obtain ⟨rfl, rfl⟩ := Prod.mk.inj (Except.ok.inj result)
    obtain ⟨last, wellformed⟩ := parses.line line there (noAssembly_of_block plain)
    exact ⟨last, parsed_statements wellformed⟩

theorem ParsesBlocks.step_body {items : List Item}
    (parsed : parseBody src (fuel + 1) ts = .ok (items, rest)) (here : At src ts)
    (plain : NoAssembly false items) : At src rest ∧ WellformedItems items := by
  rw [parseBody] at parsed
  split at parsed
  · rename_i dedent
    obtain ⟨rfl, rfl⟩ := Prod.mk.inj (Except.ok.inj parsed)
    exact ⟨here.skip_kind dedent fun m mark => (by cases mark),
      fun item there => absurd there List.not_mem_nil⟩
  · obtain ⟨rfl, rfl⟩ := Prod.mk.inj (Except.ok.inj parsed)
    exact ⟨here, fun item there => absurd there List.not_mem_nil⟩
  · rename_i newline
    exact parses.body parsed (here.skip_kind newline fun m mark => by cases mark) plain
  · obtain ⟨⟨first, ts₁⟩, line, onward⟩ := bind_eq_ok.1 parsed
    obtain ⟨⟨more, ts₂⟩, lines, result⟩ := bind_eq_ok.1 onward
    obtain ⟨rfl, rfl⟩ := Prod.mk.inj (Except.ok.inj result)
    obtain ⟨there, wellformed⟩ :=
      parses.line line here (plain.subset (List.subset_append_left _ _))
    obtain ⟨last, others⟩ := parses.body lines there (plain.subset (List.subset_append_right _ _))
    exact ⟨last, wellformedItems_append wellformed others⟩

end Blocks

theorem parsesBlocks (src : Source) (fuel : Nat) : ParsesBlocks src fuel := by
  induction fuel with
  | zero =>
      exact ⟨fun parsed => absurd parsed not_unexpected, fun parsed => absurd parsed not_unexpected,
        fun parsed => absurd parsed not_unexpected, fun parsed => absurd parsed not_unexpected⟩
  | succ fuel parses =>
      exact ⟨parses.step_line, parses.step_branches, parses.step_block, parses.step_body⟩

theorem wellformed_of_parseLines {src : Source} {fuel : Nat} {ts : List Token} {items : List Item}
    (here : At src ts) (parsed : parseLines src fuel ts = .ok items)
    (plain : NoAssembly true items) : WellformedItems items := by
  induction fuel generalizing ts items with
  | zero => exact absurd parsed not_unexpected
  | succ fuel ih =>
      rw [parseLines] at parsed
      split at parsed
      · obtain rfl := Except.ok.inj parsed
        exact fun item there => absurd there List.not_mem_nil
      · rename_i newline
        exact ih (here.skip_kind newline fun m mark => by cases mark) parsed plain
      · obtain ⟨⟨first, behind⟩, line, onward⟩ := bind_eq_ok.1 parsed
        obtain ⟨more, further, result⟩ := bind_eq_ok.1 onward
        obtain rfl := Except.ok.inj result
        obtain ⟨there, wellformed⟩ := (parsesBlocks src _).line line here
          (plain.subset (List.subset_append_left _ _))
        have others := ih there further (plain.subset (List.subset_append_right _ _))
        exact wellformedItems_append wellformed others

/-- **The items of a source without assembly text are well-formed.** -/
theorem wellformed_of_parse {source : String} {items : List Item}
    (parsed : parse source = .ok items) (plain : ∀ item ∈ items, item.hasAssembly = false) :
    WellformedItems items := by
  obtain ⟨ts, cut, lines⟩ := bind_eq_ok.1 parsed
  have here : At (Source.ofText source) ts := lexes_of_tokenize cut
  exact wellformed_of_parseLines here lines
    ⟨fun s there => plain _ there, fun _ p there => plain _ there⟩

end PulseSequencer.Ppp
