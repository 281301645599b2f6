import PulseSequencer.Formula.Parser
import PulseSequencer.Ppp.Lexer
import PulseSequencer.Ppp.Syntax
import PulseSequencer.Ppp.Token

/-
# PulseSequencer.Ppp.Parser -- from tokens to the tree

Lines, blocks and statements are parsed here.  The text of a formula, found by
its brackets and the mark that ends it, goes to the parser of formulas, so that
sources and tables of values share one grammar.
-/

namespace PulseSequencer.Ppp

set_option autoImplicit false

/-- The text of a source and where its lines start. -/
structure Source where
  chars : List Char
  map : SourceMap

def Source.ofText (text : String) : Source := ⟨text.toList, SourceMap.ofSource text⟩

/-- A fault of a formula whose text starts at byte `start`. -/
def formulaError (map : SourceMap) (start : Nat) (e : FormulaError) : CompileError :=
  ⟨map.position (start + e.offset?.getD 0), .formula e⟩

abbrev Parsed (α : Type) := α × List Token

/-! ## Looking at tokens -/

def peek : List Token → Token
  | [] => ⟨.eof, 0, 0, ⟨1, 1⟩⟩
  | t :: _ => t

/-- Steps over a token; the last one stays. -/
def skip : List Token → List Token
  | [] => []
  | [t] => [t]
  | _ :: rest => rest

def fail {α : Type} (ts : List Token) (fault : CompileFault) : Except CompileError α :=
  .error ⟨(peek ts).position, fault⟩

def atMark (m : Mark) (ts : List Token) : Bool := (peek ts).kind == .mark m

def atName (name : String) (ts : List Token) : Bool := (peek ts).kind == .name name

def unexpected {α : Type} (src : Source) (ts : List Token) : Except CompileError α :=
  let t := peek ts
  match t.kind with
  | .newline => fail ts (.unexpected "end of line")
  | .indent => fail ts .unexpectedIndent
  | .dedent => fail ts (.unexpected "dedent")
  | .eof => fail ts (.unexpected "end of file")
  | _ => fail ts (.unexpected ("'" ++ String.ofList (slice src.chars t.start t.stop) ++ "'"))

def expect (m : Mark) (ts : List Token) : Except CompileError (List Token) :=
  if atMark m ts then .ok (skip ts) else fail ts (.expected m)

def expectName (ts : List Token) : Except CompileError (Parsed String) :=
  match (peek ts).kind with
  | .name s => .ok (s, skip ts)
  | _ => fail ts .expectedName

/-- Whether a simple statement ends here. -/
def atEnd (ts : List Token) : Bool :=
  match (peek ts).kind with
  | .newline | .eof | .dedent => true
  | .mark .semicolon => true
  | _ => false

/-! ## Formulas and raw text -/

/-- Blanks out continued line ends and keeps every byte in its place. -/
def blankContinuations : List Char → List Char
  | '\\' :: '\r' :: '\n' :: rest => ' ' :: ' ' :: ' ' :: blankContinuations rest
  | '\\' :: '\n' :: rest => ' ' :: ' ' :: blankContinuations rest
  | c :: rest => c :: blankContinuations rest
  | [] => []

def sourceText (src : Source) (start stop : Nat) : String :=
  String.ofList (blankContinuations (slice src.chars start stop))

/-- The byte at which a formula ends, and the tokens behind it.  It ends at one of
the `stops` outside brackets, at a bracket that was not opened in it, or with the
line. -/
def formulaExtent (stops : List Mark) (depth stop : Nat) : List Token → Nat × List Token
  | [] => (stop, [])
  | t :: rest =>
      match t.kind with
      | .newline | .eof | .indent | .dedent => (stop, t :: rest)
      | .mark m =>
          if depth = 0 ∧ m ∈ stops then (stop, t :: rest)
          else if m.opens then formulaExtent stops (depth + 1) t.stop rest
          else if m.closes then
            match depth with
            | 0 => (stop, t :: rest)
            | d + 1 => formulaExtent stops d t.stop rest
          else formulaExtent stops depth t.stop rest
      | _ => formulaExtent stops depth t.stop rest

def parseFormula (src : Source) (stops : List Mark) (ts : List Token) :
    Except CompileError (Parsed SourceFormula) := do
  let start := (peek ts).start
  let (stop, rest) := formulaExtent stops 0 start ts
  if stop = start then fail ts .expectedFormula
  else
    let text := sourceText src start stop
    let formula ← (Formula.parse text).mapError (formulaError src.map start)
    return (⟨formula, text, start⟩, rest)

/-- The byte at which a simple statement ends, and the tokens behind it. -/
def statementExtent (stop : Nat) : List Token → Nat × List Token
  | [] => (stop, [])
  | t :: rest => if atEnd (t :: rest) then (stop, t :: rest) else statementExtent t.stop rest

/-! ## Simple statements -/

def isMnemonic (name : String) : Bool :=
  name.toList.all (fun c => c.isUpper || c.isDigit || c == '_') &&
    (Opcode.ofMnemonic? name).isSome

/-- Arguments up to and over the closing parenthesis. -/
def parseArguments (src : Source) : Nat → Bool → List Token →
    Except CompileError (Parsed (List Argument))
  | 0, _, ts => unexpected src ts
  | fuel + 1, keywordSeen, ts =>
      if atMark .closeParen ts then .ok ([], skip ts)
      else do
        let (keyword, ts) := match (peek ts).kind with
          | .name s => if atMark .assign (skip ts) then (some s, skip (skip ts)) else (none, ts)
          | _ => (none, ts)
        if keyword.isNone ∧ keywordSeen = true then fail ts .positionalAfterKeyword
        else
          let (value, ts) ← parseFormula src [.comma, .closeParen] ts
          let ts ← if atMark .closeParen ts then pure ts else expect .comma ts
          let (more, ts) ← parseArguments src fuel (keywordSeen || keyword.isSome) ts
          return (⟨keyword, value⟩ :: more, ts)

/-- A call or an assignment, from behind its name on. -/
def parseNamed (src : Source) (position : Position) (name : String) (ts : List Token) :
    Except CompileError (Parsed Statement) :=
  match (peek ts).kind with
  | .mark .openParen => do
      let (arguments, ts) ← parseArguments src ts.length false (skip ts)
      return (.call position name arguments, ts)
  | .mark .assign => do
      let (value, ts) ← parseFormula src [.semicolon] (skip ts)
      return (.assign position name none value, ts)
  | .mark m =>
      match AssignOp.ofMark? m with
      | some op => do
          let (value, ts) ← parseFormula src [.semicolon] (skip ts)
          return (.assign position name (some op) value, ts)
      | none => unexpected src ts
  | _ => unexpected src ts

def parseSimple (src : Source) (ts : List Token) : Except CompileError (Parsed Statement) :=
  let t := peek ts
  match t.kind with
  | .name "pass" => .ok (.pass t.position, skip ts)
  | .name "return" =>
      let ts := skip ts
      if atEnd ts then .ok (.return t.position none, ts)
      else do
        let (value, ts) ← parseFormula src [.semicolon] ts
        return (.return t.position (some value), ts)
  | .name name =>
      if isMnemonic name then
        let (stop, rest) := statementExtent t.start ts
        .ok (.assembly t.position (sourceText src t.start stop), rest)
      else parseNamed src t.position name (skip ts)
  | _ => unexpected src ts

/-! ## Declarations -/

/-- A declaring keyword in front of a name, or in front of an encoding. -/
def declaration? (ts : List Token) : Option DeclarationKind :=
  match (peek ts).kind with
  | .name keyword =>
      match DeclarationKind.ofKeyword? keyword, (peek (skip ts)).kind with
      | some kind, .name _ => some kind
      | some .parameter, .mark .less => some .parameter
      | _, _ => none
  | _ => none

def parseAttributes : Nat → List Token → Except CompileError (Parsed (List (String × Position)))
  | 0, ts => .ok ([], ts)
  | fuel + 1, ts =>
      if atMark .comma ts then do
        let ts := skip ts
        let (name, rest) ← expectName ts
        let (more, rest) ← parseAttributes fuel rest
        return ((name, (peek ts).position) :: more, rest)
      else .ok ([], ts)

/-- The encoding in angle brackets that a parameter can have. -/
def parseEncoding (kind : DeclarationKind) (ts : List Token) :
    Except CompileError (Parsed (Option String)) :=
  if kind = .parameter ∧ atMark .less ts then do
    let (encoding, ts) ← expectName (skip ts)
    return (some encoding, ← expect .greater ts)
  else .ok (none, ts)

def parseValue (src : Source) (ts : List Token) :
    Except CompileError (Parsed (Option SourceFormula)) :=
  if atMark .assign ts then do
    let (value, ts) ← parseFormula src [.comma, .semicolon] (skip ts)
    return (some value, ts)
  else .ok (none, ts)

def parseDeclaration (src : Source) (kind : DeclarationKind) (ts : List Token) :
    Except CompileError (Parsed Declaration) := do
  let position := (peek ts).position
  let (encoding, ts) ← parseEncoding kind (skip ts)
  let (name, ts) ← expectName ts
  let (value, ts) ← parseValue src ts
  if value.isNone ∧ kind.needsValue = true then fail ts (.missingValue kind.keyword)
  else
    let (attributes, ts) ← parseAttributes ts.length ts
    return (⟨kind, name, value, attributes, encoding, position⟩, ts)

def parseSimpleItem (src : Source) (top : Bool) (ts : List Token) :
    Except CompileError (Parsed Item) :=
  match declaration? ts with
  | some kind =>
      if top then do
        let (d, ts) ← parseDeclaration src kind ts
        return (.declaration d, ts)
      else fail ts .nestedDeclaration
  | none => do
      let (s, ts) ← parseSimple src ts
      return (.statement s, ts)

/-- Simple statements between semicolons; one may stand at the end. -/
def parseSimpleItems (src : Source) (top : Bool) : Nat → List Token →
    Except CompileError (Parsed (List Item))
  | 0, ts => unexpected src ts
  | fuel + 1, ts => do
      let (item, ts) ← parseSimpleItem src top ts
      if atMark .semicolon ts then
        let ts := skip ts
        if atEnd ts then return ([item], ts)
        else
          let (more, ts) ← parseSimpleItems src top fuel ts
          return (item :: more, ts)
      else return ([item], ts)

/-- Steps over the end of a line. -/
def endLine (src : Source) (ts : List Token) : Except CompileError (List Token) :=
  match (peek ts).kind with
  | .newline => .ok (skip ts)
  | .eof | .dedent => .ok ts
  | _ => unexpected src ts

/-! ## Blocks -/

/-- Parameters up to and over the closing parenthesis. -/
def parseParameters : Nat → List String → List Token →
    Except CompileError (Parsed (List String))
  | 0, known, ts => .ok (known, ts)
  | fuel + 1, known, ts =>
      if atMark .closeParen ts then .ok (known, skip ts)
      else do
        let (name, rest) ← expectName ts
        if name ∈ known then fail ts (.duplicateParameter name)
        else
          let rest ← if atMark .closeParen rest then pure rest else expect .comma rest
          parseParameters fuel (known ++ [name]) rest

def statements (items : List Item) : List Statement :=
  items.filterMap fun item => match item with
    | .statement s => some s
    | _ => none

/- The number bounds the depth of the recursion; `parse` starts with more than any
list of tokens can use. -/
mutual

/-- One logical line: a procedure, a branching, a loop, or simple statements. -/
def parseLine (src : Source) : Nat → Bool → List Token → Except CompileError (Parsed (List Item))
  | 0, _, ts => unexpected src ts
  | fuel + 1, top, ts =>
      let position := (peek ts).position
      match (peek ts).kind with
      | .name "def" =>
          if top then do
            let (name, ts) ← expectName (skip ts)
            let ts ← expect .openParen ts
            let (parameters, ts) ← parseParameters (ts.length + 1) [] ts
            let (body, ts) ← parseBlock src fuel ts
            return ([.procedure ⟨name, parameters, body, position⟩], ts)
          else fail ts .nestedProcedure
      | .name "if" => do
          let (condition, ts) ← parseFormula src [.colon] (skip ts)
          let (body, ts) ← parseBlock src fuel ts
          let ((branches, otherwise), ts) ← parseBranches src fuel ts
          return ([.statement (.cond position ((condition, body) :: branches) otherwise)], ts)
      | .name "while" => do
          let (condition, ts) ← parseFormula src [.colon] (skip ts)
          let (body, ts) ← parseBlock src fuel ts
          return ([.statement (.loop position condition body)], ts)
      | _ => do
          let (items, ts) ← parseSimpleItems src top (ts.length + 1) ts
          return (items, ← endLine src ts)

/-- Further branches of a branching, and the statements behind `else`. -/
def parseBranches (src : Source) : Nat → List Token →
    Except CompileError (Parsed (List (SourceFormula × List Statement) × List Statement))
  | 0, ts => unexpected src ts
  | fuel + 1, ts =>
      if atName "elif" ts then do
        let (condition, ts) ← parseFormula src [.colon] (skip ts)
        let (body, ts) ← parseBlock src fuel ts
        let ((branches, otherwise), ts) ← parseBranches src fuel ts
        return (((condition, body) :: branches, otherwise), ts)
      else if atName "else" ts then do
        let (otherwise, ts) ← parseBlock src fuel (skip ts)
        return (([], otherwise), ts)
      else .ok (([], []), ts)

/-- A colon, and either an indented block or simple statements on the same line. -/
def parseBlock (src : Source) : Nat → List Token → Except CompileError (Parsed (List Statement))
  | 0, ts => unexpected src ts
  | fuel + 1, ts => do
      let ts ← expect .colon ts
      if (peek ts).kind = .newline then
        let ts := skip ts
        if (peek ts).kind = .indent then
          let (items, ts) ← parseBody src fuel (skip ts)
          return (statements items, ts)
        else fail ts .expectedBlock
      else
        let (items, ts) ← parseLine src fuel false ts
        return (statements items, ts)

/-- The lines of an indented block, up to and over its end. -/
def parseBody (src : Source) : Nat → List Token → Except CompileError (Parsed (List Item))
  | 0, ts => unexpected src ts
  | fuel + 1, ts =>
      match (peek ts).kind with
      | .dedent => .ok ([], skip ts)
      | .eof => .ok ([], ts)
      | .newline => parseBody src fuel (skip ts)
      | _ => do
          let (items, ts) ← parseLine src fuel false ts
          let (more, ts) ← parseBody src fuel ts
          return (items ++ more, ts)

end

/-- The lines of a source. -/
def parseLines (src : Source) : Nat → List Token → Except CompileError (List Item)
  | 0, ts => unexpected src ts
  | fuel + 1, ts =>
      match (peek ts).kind with
      | .eof => .ok []
      | .newline => parseLines src fuel (skip ts)
      | _ => do
          let (items, ts') ← parseLine src (4 * (ts.length + 1)) true ts
          return items ++ (← parseLines src fuel ts')

def parse (text : String) : Except CompileError (List Item) := do
  let ts ← tokenize text
  parseLines (Source.ofText text) (ts.length + 1) ts

end PulseSequencer.Ppp
