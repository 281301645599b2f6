import PulseSequencer.Proofs.Ppp.Lexemes
import PulseSequencer.Proofs.Ppp.Parsing
import PulseSequencer.Proofs.Ppp.Turns

/-
# PulseSequencer.Proofs.Ppp.Spans -- where a formula ends

The text of a formula that stands in a source is cut into the tokens of the formula, with
all of its brackets and separators inside: `cuts_formula`.  So the parser of sources finds
its end in front of the first token that does not belong to it, and reads it as it was
written: `parseFormula_of_cut`.
-/

namespace PulseSequencer.Ppp

open Formula (Flows)
open Text (byteLength)

set_option autoImplicit false

/-! ## Steps of the scanner -/

/-- What holds of the tokens of a text, wherever in a line the scanner comes upon it. -/
def Cuts (before : List Char) (depth : Nat) (widths : List Nat) (cs : List Char)
    (Q : List Token → Prop) : Prop :=
  ∀ s : LexState, s.cursor.offset = byteLength before → s.depth = depth → s.widths = widths →
    s.lineStart = false → ∃ ts, scan s cs = .ok ts ∧ Q ts

/-- What holds of the tokens of a text that starts a line. -/
def Starts (before : List Char) (widths : List Nat) (cs : List Char) (Q : List Token → Prop) :
    Prop :=
  ∀ s : LexState, s.cursor.offset = byteLength before → s.depth = 0 → s.widths = widths →
    s.lineStart = true → s.inLine = false → ∃ ts, scan s cs = .ok ts ∧ Q ts

section Cuts

variable {before rest : List Char} {depth next n : Nat} {widths : List Nat} {c : Char}
  {kind : TokenKind} {P Q : List Token → Prop}

theorem Cuts.imp (cuts : Cuts before depth widths rest P) (implies : ∀ ts, P ts → Q ts) :
    Cuts before depth widths rest Q := fun s place level open' inside => by
  obtain ⟨ts, scanned, holds⟩ := cuts s place level open' inside
  exact ⟨ts, scanned, implies ts holds⟩

theorem Starts.imp (starts : Starts before widths rest P) (implies : ∀ ts, P ts → Q ts) :
    Starts before widths rest Q := fun s place level open' start outside => by
  obtain ⟨ts, scanned, holds⟩ := starts s place level open' start outside
  exact ⟨ts, scanned, implies ts holds⟩

theorem not_atLine {s : LexState} (inside : s.lineStart = false) : ¬ s.AtLine := by
  intro starts
  exact Bool.false_ne_true (inside.symm.trans starts.1)

theorem cuts_blank (blank : c = ' ' ∨ c = '\t' ∨ c = '\r')
    (onward : Cuts (before ++ [c]) depth widths rest Q) :
    Cuts before depth widths (c :: rest) Q := by
  intro s place level open' inside
  have turn : Turn s [c] rest [] _ := .blank (not_atLine inside) blank
  have bytes : (s.cursor.skip 1).offset = byteLength (before ++ [c]) := by
    rw [Text.byteLength_append, ← place]
    exact turn.offset
  obtain ⟨ts, scanned, holds⟩ :=
    onward { s with cursor := s.cursor.skip 1 } bytes level open' inside
  refine ⟨ts, ?_, holds⟩
  rw [← List.singleton_append, scan_of_turn turn, scanned]
  rfl

/-- What a token is that the scanner takes from a place. -/
structure Taken (kind : TokenKind) (before piece : List Char) (t : Token) : Prop where
  is : t.kind = kind
  start : t.start = byteLength before
  stop : t.stop = byteLength (before ++ piece)

theorem cuts_token (solid : c ∉ skipped) (read : lexeme c rest = .ok (kind, n))
    (after : ∀ cursor, depthAfterToken cursor depth kind = .ok next)
    (onward : Cuts (before ++ c :: rest.take n) next widths (rest.drop n) Q) :
    Cuts before depth widths (c :: rest) fun ts =>
      ∃ t ts', ts = t :: ts' ∧ Taken kind before (c :: rest.take n) t ∧ Q ts' := by
  intro s place level open' inside
  let t := s.cursor.token kind (byteLength (c :: rest.take n))
  have turn : Turn s (c :: rest.take n) (rest.drop n) [t] _ :=
    .token (not_atLine inside) solid read (level ▸ after s.cursor)
  have bytes := turn.offset
  rw [place, ← Text.byteLength_append] at bytes
  obtain ⟨ts, scanned, holds⟩ := onward _ bytes rfl open' inside
  have taken : Taken kind before (c :: rest.take n) t := ⟨rfl, place, bytes⟩
  refine ⟨t :: ts, ?_, t, ts, rfl, taken, holds⟩
  rw [← List.take_append_drop n rest, ← List.cons_append, scan_of_turn turn, scanned]
  rfl

theorem cuts_newline (onward : Starts (before ++ ['\n']) widths rest Q) :
    Cuts before 0 widths ('\n' :: rest) fun ts =>
      ∃ t ts', ts = t :: ts' ∧ t.kind = .newline ∧ Q ts' := by
  intro s place level open' inside
  have turn : Turn s ['\n'] rest [s.cursor.emptyToken .newline] _ :=
    .lineEnd (not_atLine inside) level
  have bytes := turn.offset
  rw [place, ← Text.byteLength_append] at bytes
  obtain ⟨ts, scanned, holds⟩ := onward _ bytes level open' rfl rfl
  refine ⟨s.cursor.emptyToken .newline :: ts, ?_, _, ts, rfl, rfl, holds⟩
  rw [← List.singleton_append, scan_of_turn turn, scanned]
  rfl

end Cuts

/-! ## The tokens of a formula -/

/-- Tokens that belong to a formula, behind a byte and with some of its brackets open, and
the byte at which the last of them ends. -/
inductive Spans : Nat → Nat → List Token → Nat → Prop
  | nil {stop : Nat} : Spans stop 0 [] stop
  | token {stop depth next last : Nat} {t : Token} {ts : List Token} {u : Formula.Token}
      (is : t.kind = u.kind) (dark : u ≠ .finish) (inside : u.separates = true → 0 < depth)
      (turns : (next : Int) = depth + u.turn) (onward : Spans t.stop next ts last) :
      Spans stop depth (t :: ts) last

section Formulas

variable {before cs tail : List Char} {offset outer depth : Nat} {widths : List Nat}
  {prev : Formula.Token} {fs : List Formula.Located} {Q : List Token → Prop}

/-- No token of a formula starts with a character that the scanner skips. -/
theorem solid_of_lexeme {c : Char} {rest : List Char} {t : Formula.Token} {n : Nat}
    (read : Formula.lexeme c rest = .ok (t, n)) : c ∉ skipped := by
  intro there
  simp only [skipped, List.mem_cons, List.not_mem_nil, or_false] at there
  rcases there with rfl | rfl | rfl | rfl | rfl | rfl <;> cases read

/-- Brackets of a formula are brackets of the source, inside those that are open there. -/
theorem depthAfterToken_kind {t : Formula.Token} {next : Nat}
    (turns : (next : Int) = depth + t.turn) (cursor : Cursor) :
    depthAfterToken cursor (outer + depth) t.kind = .ok (outer + next) := by
  have plain : t.turn = 0 → next = depth := by omega
  have opens : t.turn = 1 → next = depth + 1 := by omega
  have closes : t.turn = -1 → depth = next + 1 := by omega
  cases t with
  | symbol s =>
      cases s with
      | openParen | openBracket | openBrace =>
          obtain rfl := opens rfl
          rfl
      | closeParen | closeBracket | closeBrace =>
          obtain rfl := closes rfl
          rfl
      | _ =>
          obtain rfl := plain rfl
          rfl
  | _ =>
      obtain rfl := plain rfl
      rfl

/-- A text on one line that does not end with a blank. -/
structure Tidy (cs : List Char) : Prop where
  one : '\n' ∉ cs
  noFeed : '\x0c' ∉ cs
  last : ∀ c, cs.getLast? = some c → Formula.isSpace c = false

theorem Tidy.drop (tidy : Tidy cs) (n : Nat) : Tidy (cs.drop n) where
  one there := tidy.one (List.mem_of_mem_drop there)
  noFeed there := tidy.noFeed (List.mem_of_mem_drop there)
  last c ends := by
    refine tidy.last c ?_
    rw [List.getLast?_drop] at ends
    split at ends
    · cases ends
    · exact ends

/-- Tokens of which the first ones belong to a text, and what holds of those behind them. -/
def Spanned (stop depth : Nat) (before cs : List Char) (Q : List Token → Prop)
    (ts : List Token) : Prop :=
  ∃ toks ts', ts = toks ++ ts' ∧ Spans stop depth toks (byteLength (before ++ cs)) ∧
    (∀ c, cs.head? = some c → Formula.isSpace c = false → (peek toks).start = byteLength before) ∧
      Q ts'

/-- **The scanner takes the tokens of a formula one by one.** -/
theorem cuts_formula (cut : Formula.tokensFrom offset cs = .ok fs) :
    ∀ (before : List Char) (prev : Formula.Token) (depth stop : Nat), Flows prev depth fs →
      Tidy cs → (cs = [] → stop = byteLength before) → Stopped tail →
      Cuts (before ++ cs) outer widths tail Q →
        Cuts before (outer + depth) widths (cs ++ tail) (Spanned stop depth before cs Q) := by
  refine Formula.tokens_induction (motive := fun cs fs =>
    ∀ (before : List Char) (prev : Formula.Token) (depth stop : Nat), Flows prev depth fs →
      Tidy cs → (cs = [] → stop = byteLength before) → Stopped tail →
      Cuts (before ++ cs) outer widths tail Q →
        Cuts before (outer + depth) widths (cs ++ tail) (Spanned stop depth before cs Q))
    ?_ ?_ ?_ cut
  · intro offset before prev depth stop flows _ starts _ onward
    have closed : (depth : Int) + 0 = 0 := flows.2.2.2
    obtain rfl : depth = 0 := by omega
    rw [List.append_nil] at onward
    refine onward.imp fun ts holds => ⟨[], ts, rfl, ?_, fun c none' => (by cases none'), holds⟩
    rw [starts rfl, List.append_nil]
    exact .nil
  · intro c rest ts blank ih before prev depth stop flows tidy _ stopped onward
    have some' : rest ≠ [] := by
      rintro rfl
      exact Bool.false_ne_true ((tidy.last c rfl).symm.trans blank)
    have blank' : c = ' ' ∨ c = '\t' ∨ c = '\r' := by
      simp only [Formula.isSpace, Bool.or_eq_true, beq_iff_eq] at blank
      rcases blank with (((rfl | rfl) | rfl) | rfl) | rfl
      · exact .inl rfl
      · exact .inr (.inl rfl)
      · exact absurd (List.mem_cons_self ..) tidy.one
      · exact .inr (.inr rfl)
      · exact absurd (List.mem_cons_self ..) tidy.noFeed
    rw [← List.singleton_append, ← List.append_assoc] at onward
    refine cuts_blank blank' ((ih (before ++ [c]) prev depth stop flows (tidy.drop 1)
      (fun none' => absurd none' some') stopped onward).imp ?_)
    rintro ts ⟨toks, ts', rfl, spans, _, holds⟩
    refine ⟨toks, ts', rfl, ?_, ?_, holds⟩
    · rwa [List.append_assoc] at spans
    · intro d first solid
      obtain rfl := Option.some.inj first
      exact absurd (solid.symm.trans blank) Bool.false_ne_true
  · intro c rest t n offset behind ts solid read cut ih before prev depth stop flows tidy starts
      stopped onward
    obtain ⟨meets, inside, above, further⟩ := flows
    obtain ⟨next, turns⟩ := Int.eq_ofNat_of_zero_le above
    have apart : Apart t (rest.drop n ++ tail) := by
      refine apart_of_tokens cut (fun u first => ?_) stopped
      obtain ⟨others, rfl⟩ := List.head?_eq_some_iff.1 first
      exact further.1
    obtain ⟨read', bound⟩ := lexeme_of_formula read
      (fun there => tidy.one (List.mem_cons_of_mem _ there)) apart stopped
    have piece : (rest ++ tail).take n = rest.take n := List.take_append_of_le_length bound
    have whole : before ++ c :: rest.take n ++ rest.drop n = before ++ c :: rest := by
      rw [List.append_assoc, List.cons_append, List.take_append_drop]
    rw [turns] at further
    have onward' := ih (before ++ c :: rest.take n) t next (byteLength (before ++ c :: rest.take n))
      further (tidy.drop (n + 1)) (fun none' => by rfl) stopped (by rwa [whole])
    rw [← List.drop_append_of_le_length bound, ← piece] at onward'
    refine (cuts_token (solid_of_lexeme read) read' (depthAfterToken_kind turns.symm)
      onward').imp ?_
    rintro _ ⟨t', _, rfl, is, toks, ts', rfl, spans, _, holds⟩
    rw [piece, whole] at spans
    rw [piece] at is
    have inside' : t.separates = true → 0 < depth := fun separates =>
      Int.natCast_pos.1 (inside separates)
    have spans' : Spans stop depth (t' :: toks) (byteLength (before ++ c :: rest)) :=
      .token is.is (Formula.ne_finish_of_lexeme read) inside' turns.symm (is.stop ▸ spans)
    exact ⟨t' :: toks, ts', rfl, spans', fun _ _ _ => is.start, holds⟩

end Formulas

/-! ## Formulas in their places -/

/-- A formula that its text stands for: one line with no blanks around it. -/
structure SourceFormula.Printable (v : SourceFormula) : Prop where
  parsed : Formula.parse v.text = .ok v.formula
  first : ∀ c, v.text.toList.head? = some c → Formula.isSpace c = false
  tidy : Tidy v.text.toList

/-- The tokens of a formula that stands somewhere in a source. -/
def FormulaTokens (src : Source) (v : SourceFormula) (toks : List Token) : Prop :=
  ∃ before behind, src.chars = before ++ v.text.toList ++ behind ∧
    (peek toks).start = byteLength before ∧
      Spans (byteLength before) 0 toks (byteLength (before ++ v.text.toList))

section Places

variable {src : Source} {v : SourceFormula} {before tail : List Char} {outer : Nat}
  {widths : List Nat} {Q : List Token → Prop} {stops : List Mark} {toks rest : List Token}
  {stop depth last : Nat}

theorem SourceFormula.Printable.some' (printable : v.Printable) : v.text.toList ≠ [] := by
  intro none'
  have parsed := printable.parsed
  rw [String.toList_eq_nil_iff.1 none'] at parsed
  exact Formula.parse_empty _ parsed

/-- **The scanner cuts a formula in its place into its tokens.** -/
theorem cuts_sourceFormula (printable : v.Printable)
    (place : src.chars = before ++ v.text.toList ++ tail) (stopped : Stopped tail)
    (onward : Cuts (before ++ v.text.toList) outer widths tail Q) :
    Cuts before outer widths (v.text.toList ++ tail) fun ts =>
      ∃ toks ts', ts = toks ++ ts' ∧ FormulaTokens src v toks ∧ Q ts' := by
  obtain ⟨fs, cut, flows, _⟩ := Formula.flows_of_parse printable.parsed
  refine Cuts.imp (cuts_formula cut before .finish 0 (byteLength before) flows printable.tidy
    (fun _ => rfl) stopped onward) ?_
  rintro ts ⟨toks, ts', rfl, spans, starts, holds⟩
  obtain ⟨c, more, shape⟩ := List.exists_cons_of_ne_nil printable.some'
  have first : v.text.toList.head? = some c := by rw [shape]; rfl
  exact ⟨toks, ts', rfl, ⟨before, tail, place, starts c first (printable.first c first), spans⟩,
    holds⟩

/-- The marks that end formulas somewhere in a source. -/
def ends : List Mark := [.comma, .colon, .semicolon, .closeParen]

/-- Tokens behind a formula: the first one ends it. -/
def Halts (stops : List Mark) (ts : List Token) : Prop :=
  (peek ts).kind = .newline ∨ ∃ m ∈ stops, (peek ts).kind = .mark m

theorem formulaExtent_halts (halts : Halts stops rest) (some' : rest ≠ []) :
    formulaExtent stops 0 stop rest = (stop, rest) := by
  obtain ⟨t, others, rfl⟩ := List.exists_cons_of_ne_nil some'
  rcases halts with newline | ⟨m, there, mark⟩
  · exact formulaExtent_layout (by rw [show t.kind = .newline from newline]; rfl)
  · rw [formulaExtent.eq_def]
    dsimp only
    rw [show t.kind = .mark m from mark]
    exact if_pos ⟨rfl, there⟩

/-- A symbol that would end a formula stands in it inside brackets, or closes one. -/
theorem inside_of_ends {s : Formula.Symbol} (there : s.mark ∈ ends) :
    (Formula.Token.symbol s).separates = true ∨ (Formula.Token.symbol s).turn = -1 := by
  cases s <;> first
    | exact .inl rfl
    | exact .inr rfl
    | exact absurd there (by decide)

/-- No token of a formula ends it. -/
theorem formulaExtent_token {t : Token} {ts : List Token} {u : Formula.Token} {next : Nat}
    (is : t.kind = u.kind) (dark : u ≠ .finish) (inside : u.separates = true → 0 < depth)
    (turns : (next : Int) = depth + u.turn) (known : ∀ m ∈ stops, m ∈ ends) :
    formulaExtent stops depth stop (t :: ts) = formulaExtent stops next t.stop ts := by
  have plain : u.turn = 0 → next = depth := by omega
  rw [formulaExtent.eq_def]
  dsimp only
  rw [is]
  cases u with
  | finish => exact absurd rfl dark
  | symbol s =>
      have goes : ¬(depth = 0 ∧ s.mark ∈ stops) := by
        rintro ⟨rfl, there⟩
        rcases inside_of_ends (known _ there) with separates | closes
        · exact absurd (inside separates) (Nat.lt_irrefl 0)
        · omega
      dsimp only [Formula.Token.kind]
      rw [if_neg goes]
      cases s with
      | openParen | openBracket | openBrace =>
          obtain rfl : next = depth + 1 := Int.ofNat.inj turns
          rfl
      | closeParen | closeBracket | closeBrace =>
          obtain rfl : depth = next + 1 := by
            simp only [Formula.Token.turn] at turns
            omega
          rfl
      | _ =>
          obtain rfl := plain rfl
          rfl
  | _ =>
      obtain rfl := plain rfl
      rfl

/-- **The end of a formula is found behind its last token.** -/
theorem formulaExtent_spans (spans : Spans stop depth toks last) (known : ∀ m ∈ stops, m ∈ ends)
    (halts : Halts stops rest) (some' : rest ≠ []) :
    formulaExtent stops depth stop (toks ++ rest) = (last, rest) := by
  induction spans with
  | nil => exact formulaExtent_halts halts some'
  | token is dark inside turns _ ih =>
      rw [List.cons_append, formulaExtent_token is dark inside turns known, ih]

theorem blankContinuations_of_one {cs : List Char} (one : '\n' ∉ cs) :
    blankContinuations cs = cs := by
  fun_induction blankContinuations cs with
  | case1 rest ih | case2 rest ih => simp at one
  | case3 c rest _ _ ih => rw [ih fun there => one (List.mem_cons_of_mem _ there)]
  | case4 => rfl

theorem SourceFormula.Printable.longer (printable : v.Printable) (before : List Char) :
    byteLength (before ++ v.text.toList) ≠ byteLength before := by
  obtain ⟨c, more, shape⟩ := List.exists_cons_of_ne_nil printable.some'
  have wide := c.utf8Size_pos
  rw [shape, Text.byteLength_append, byteLength]
  omega

theorem Spans.kinds (spans : Spans stop depth toks last) :
    ∀ t ∈ toks, ∃ u : Formula.Token, t.kind = u.kind := by
  induction spans with
  | nil => exact fun _ none' => absurd none' List.not_mem_nil
  | token is _ _ _ _ ih => exact List.forall_mem_cons.2 ⟨⟨_, is⟩, ih⟩

theorem Spans.first (spans : Spans stop depth toks last) (longer : last ≠ stop) :
    ∃ t more, toks = t :: more ∧
      ∃ u : Formula.Token, t.kind = u.kind ∧ u ≠ .finish ∧ 0 ≤ depth + u.turn := by
  cases spans with
  | nil => exact absurd rfl longer
  | token is dark _ turns =>
      exact ⟨_, _, rfl, _, is, dark, turns ▸ Int.natCast_nonneg _⟩

/-- The first token of a formula closes no bracket. -/
theorem FormulaTokens.first (tokens : FormulaTokens src v toks) (printable : v.Printable) :
    ∃ t more, toks = t :: more ∧
      (∃ u : Formula.Token, t.kind = u.kind ∧ u ≠ .finish ∧ 0 ≤ u.turn) ∧
        ∀ t' ∈ more, ∃ u : Formula.Token, t'.kind = u.kind := by
  obtain ⟨before, _, _, _, spans⟩ := tokens
  obtain ⟨t, more, rfl, u, is, dark, turns⟩ := spans.first (printable.longer before)
  rw [Int.natCast_zero, Int.zero_add] at turns
  exact ⟨t, more, rfl, ⟨u, is, dark, turns⟩, (List.forall_mem_cons.1 spans.kinds).2⟩

/-- **A formula is read as it was written.** -/
theorem parseFormula_of_tokens (printable : v.Printable) (tokens : FormulaTokens src v toks)
    (known : ∀ m ∈ stops, m ∈ ends) (halts : Halts stops rest) (some' : rest ≠ []) :
    ∃ start, parseFormula src stops (toks ++ rest) = .ok (⟨v.formula, v.text, start⟩, rest) := by
  obtain ⟨before, behind, place, start, spans⟩ := tokens
  have longer := printable.longer before
  have first : (peek (toks ++ rest)).start = byteLength before := by
    obtain ⟨t, others, rfl, _⟩ := spans.first longer
    exact start
  have text : sourceText src (byteLength before) (byteLength (before ++ v.text.toList)) =
      v.text := by
    rw [sourceText, place, slice_piece, blankContinuations_of_one printable.tidy.one,
      String.ofList_toList]
  refine ⟨byteLength before, ?_⟩
  unfold parseFormula
  dsimp only
  rw [first, formulaExtent_spans spans known halts some']
  dsimp only
  rw [if_neg longer, text]
  exact bind_eq_ok.2 ⟨v.formula, by rw [printable.parsed]; rfl, rfl⟩

end Places

end PulseSequencer.Ppp
