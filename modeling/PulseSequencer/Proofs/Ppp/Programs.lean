import PulseSequencer.Proofs.Ppp.Layout

/-
# PulseSequencer.Proofs.Ppp.Programs -- programs that are laid out

`layOut` writes a program with one statement on a line and every level indented by the
same number of blanks.  Its lines can be read (`laid_item`), and none stands more than one
level deeper than the one in front of it (`nests_items`).
-/

namespace PulseSequencer.Ppp

set_option autoImplicit false

/-! ## Laying out a program -/

/-- The mark of an assignment. -/
def assignMark : Option AssignOp → Mark
  | none => .assign
  | some .add => .addAssign
  | some .sub => .subAssign
  | some .mul => .mulAssign
  | some .div => .divAssign
  | some .and => .andAssign
  | some .or => .orAssign
  | some .shl => .shlAssign
  | some .shr => .shrAssign

/-- Pieces with commas between them. -/
def separated (items : List (List Piece)) : List Piece := [.mark .comma, .blank].intercalate items

def Argument.pieces (a : Argument) : List Piece :=
  match a.keyword with
  | none => [.formula a.value]
  | some name => [.word name, .blank, .mark .assign, .blank, .formula a.value]

mutual

/-- The lines of a statement at some depth.  Assembly text is not laid out. -/
def Statement.sourceLines (depth : Nat) : Statement → List Line
  | .assign _ target op value =>
      [⟨depth, target, [.blank, .mark (assignMark op), .blank, .formula value]⟩]
  | .cond _ branches otherwise => branchLines depth "if" branches ++ elseLines depth otherwise
  | .loop _ condition body =>
      ⟨depth, "while", [.blank, .formula condition, .mark .colon]⟩ :: blockLines (depth + 1) body
  | .call _ name arguments =>
      [⟨depth, name, .mark .openParen ::
        (separated (arguments.map Argument.pieces) ++ [.mark .closeParen])⟩]
  | .return _ none => [⟨depth, "return", []⟩]
  | .return _ (some value) => [⟨depth, "return", [.blank, .formula value]⟩]
  | .pass _ => [⟨depth, "pass", []⟩]
  | .assembly _ _ => []

def branchLines (depth : Nat) (keyword : String) : List (SourceFormula × List Statement) → List Line
  | [] => []
  | (condition, body) :: rest =>
      ⟨depth, keyword, [.blank, .formula condition, .mark .colon]⟩ ::
        (blockLines (depth + 1) body ++ branchLines depth "elif" rest)

def elseLines (depth : Nat) : List Statement → List Line
  | [] => []
  | s :: rest =>
      ⟨depth, "else", [.mark .colon]⟩ :: (s.sourceLines (depth + 1) ++ blockLines (depth + 1) rest)

def blockLines (depth : Nat) : List Statement → List Line
  | [] => []
  | s :: rest => s.sourceLines depth ++ blockLines depth rest

end

def encodingPieces : Option String → List Piece
  | none => []
  | some encoding => [.mark .less, .word encoding, .mark .greater]

def valuePieces : Option SourceFormula → List Piece
  | none => []
  | some value => [.blank, .mark .assign, .blank, .formula value]

def attributePieces (attributes : List (String × Position)) : List Piece :=
  attributes.flatMap fun a => [.mark .comma, .blank, .word a.1]

def Declaration.pieces (d : Declaration) : List Piece :=
  encodingPieces d.encoding ++ (.blank :: .word d.name ::
    (valuePieces d.value ++ attributePieces d.attributes))

def Procedure.pieces (p : Procedure) : List Piece :=
  [.blank, .word p.name, .mark .openParen] ++ separated (p.parameters.map fun x => [.word x]) ++
    [.mark .closeParen, .mark .colon]

def Item.sourceLines : Item → List Line
  | .declaration d => [⟨0, d.kind.keyword, d.pieces⟩]
  | .procedure p => ⟨0, "def", p.pieces⟩ :: blockLines 1 p.body
  | .statement s => s.sourceLines 0

/-- The text of a program, with so many blanks for each level. -/
def layOut (width : Nat) (items : List Item) : String :=
  String.ofList (textOf width (items.flatMap Item.sourceLines))

/-! ## Programs that can be laid out -/

/-- The words that start a statement of their own. -/
def statementWords : List String := ["def", "if", "elif", "else", "while", "pass", "return"]

/-- A name that can start a statement: no word of the language, and no mnemonic. -/
def IsHead (name : String) : Prop :=
  Formula.IsWord name ∧ name ∉ statementWords ∧ isMnemonic name = false

structure Argument.Printable (a : Argument) : Prop where
  keyword : ∀ name ∈ a.keyword, Formula.IsWord name
  value : a.value.Printable

/-- No positional argument stands behind one with a keyword. -/
def KeywordsLast (arguments : List Argument) : Prop :=
  arguments.Pairwise fun a b => a.keyword.isSome = true → b.keyword.isSome = true

mutual

/-- A statement that can be laid out: names are words, formulas stand on their lines, and
no body is empty. -/
def Statement.Printable : Statement → Prop
  | .assign _ target _ value => IsHead target ∧ value.Printable
  | .cond _ branches otherwise =>
      branches ≠ [] ∧ BranchesPrintable branches ∧ BlockPrintable otherwise
  | .loop _ condition body => condition.Printable ∧ body ≠ [] ∧ BlockPrintable body
  | .call _ name arguments =>
      IsHead name ∧ (∀ a ∈ arguments, a.Printable) ∧ KeywordsLast arguments
  | .return _ value => ∀ v ∈ value, v.Printable
  | .pass _ => True
  | .assembly _ _ => False

def BranchesPrintable : List (SourceFormula × List Statement) → Prop
  | [] => True
  | (condition, body) :: rest =>
      condition.Printable ∧ body ≠ [] ∧ BlockPrintable body ∧ BranchesPrintable rest

def BlockPrintable : List Statement → Prop
  | [] => True
  | s :: rest => s.Printable ∧ BlockPrintable rest

end

structure Declaration.Printable (d : Declaration) : Prop where
  name : Formula.IsWord d.name
  value : ∀ v ∈ d.value, v.Printable
  attributes : ∀ a ∈ d.attributes, Formula.IsWord a.1
  encoding : ∀ name ∈ d.encoding, Formula.IsWord name

structure Procedure.Printable (p : Procedure) : Prop where
  name : Formula.IsWord p.name
  parameters : ∀ x ∈ p.parameters, Formula.IsWord x
  some' : p.body ≠ []
  body : BlockPrintable p.body

def Item.Printable : Item → Prop
  | .declaration d => d.Printable
  | .procedure p => p.Printable
  | .statement s => s.Printable

/-- What the parser asks of an item beside the shape of its text: a value where one is needed,
an encoding only at a parameter, and parameters that are distinct. -/
def Item.Regular : Item → Prop
  | .declaration d =>
      (d.kind.needsValue = true → d.value ≠ none) ∧ ∀ name ∈ d.encoding, d.kind = .parameter
  | .procedure p => p.parameters.Nodup
  | .statement _ => True

/-! ## Programs without places -/

/-- The place of what has none. -/
def nowhere : Position := ⟨0, 0⟩

def SourceFormula.unplaced (v : SourceFormula) : SourceFormula := { v with start := 0 }

def Argument.unplaced (a : Argument) : Argument := { a with value := a.value.unplaced }

mutual

/-- A statement without the places of its parts. -/
def Statement.unplaced : Statement → Statement
  | .assign _ target op value => .assign nowhere target op value.unplaced
  | .cond _ branches otherwise =>
      .cond nowhere (unplacedBranches branches) (unplacedBlock otherwise)
  | .loop _ condition body => .loop nowhere condition.unplaced (unplacedBlock body)
  | .call _ name arguments => .call nowhere name (arguments.map Argument.unplaced)
  | .return _ value => .return nowhere (value.map SourceFormula.unplaced)
  | .pass _ => .pass nowhere
  | .assembly _ text => .assembly nowhere text

def unplacedBranches :
    List (SourceFormula × List Statement) → List (SourceFormula × List Statement)
  | [] => []
  | (condition, body) :: rest =>
      (condition.unplaced, unplacedBlock body) :: unplacedBranches rest

def unplacedBlock : List Statement → List Statement
  | [] => []
  | s :: rest => s.unplaced :: unplacedBlock rest

end

def Declaration.unplaced (d : Declaration) : Declaration :=
  { d with
    value := d.value.map SourceFormula.unplaced
    attributes := d.attributes.map fun a => (a.1, nowhere)
    position := nowhere }

def Procedure.unplaced (p : Procedure) : Procedure :=
  { p with body := unplacedBlock p.body, position := nowhere }

/-- An item without the places of its parts. -/
def Item.unplaced : Item → Item
  | .declaration d => .declaration d.unplaced
  | .procedure p => .procedure p.unplaced
  | .statement s => .statement s.unplaced

/-! ## The lines can be read -/

section Laid

variable {depth : Nat} {ps rest : List Piece} {s : String} {m : Mark} {v : SourceFormula}

theorem laid_blank (laid : Laid depth ps) : Laid depth (.blank :: ps) :=
  ⟨trivial, rfl, depth, rfl, laid⟩

theorem laid_word (word : Formula.IsWord s) (fits : (Piece.word s).fits ps.head? = true)
    (laid : Laid depth ps) : Laid depth (.word s :: ps) :=
  ⟨word, fits, depth, rfl, laid⟩

theorem laid_formula (printable : v.Printable) (fits : (Piece.formula v).fits ps.head? = true)
    (laid : Laid depth ps) : Laid depth (.formula v :: ps) :=
  ⟨printable, fits, depth, rfl, laid⟩

/-- A mark that is no bracket. -/
theorem laid_mark (plain : m.opens = false ∧ m.closes = false)
    (fits : (Piece.mark m).fits ps.head? = true) (laid : Laid depth ps) :
    Laid depth (.mark m :: ps) := by
  refine ⟨trivial, fits, depth, ?_, laid⟩
  rw [Piece.Turns, TokenKind.Turns, plain.1, plain.2]
  rfl

/-- Anything can stand behind a mark that is the beginning of no other. -/
theorem fits_alone (alone : m.prolongers = []) (next : Option Piece) :
    (Piece.mark m).fits next = true := by
  rcases next with _ | (_ | _ | _ | _) <;> first | rfl | exact List.isEmpty_iff.2 alone

theorem laid_open (laid : Laid (depth + 1) ps) : Laid depth (.mark .openParen :: ps) :=
  ⟨trivial, fits_alone rfl _, depth + 1, rfl, laid⟩

theorem laid_close (laid : Laid depth ps) : Laid (depth + 1) (.mark .closeParen :: ps) :=
  ⟨trivial, fits_alone rfl _, depth, rfl, laid⟩

theorem plain_assignMark (op : Option AssignOp) :
    (assignMark op).opens = false ∧ (assignMark op).closes = false := by
  cases op with
  | none => exact ⟨rfl, rfl⟩
  | some op => cases op <;> exact ⟨rfl, rfl⟩

/-- Behind an item of a list stands a comma or the end of the list. -/
def EndsItem (rest : List Piece) : Prop :=
  rest.head? = some (.mark .comma) ∨ rest.head? = some (.mark .closeParen)

/-- Pieces that can be an item of a list. -/
def LaidItem (item : List Piece) : Prop :=
  ∀ depth rest, EndsItem rest → Laid depth rest → Laid depth (item ++ rest)

theorem fits_word_of_endsItem (ends : EndsItem rest) : (Piece.word s).fits rest.head? = true := by
  rcases ends with next | next <;> rw [next] <;> rfl

theorem fits_formula_of_endsItem (ends : EndsItem rest) :
    (Piece.formula v).fits rest.head? = true := by
  rcases ends with next | next <;> rw [next] <;> rfl

theorem laidItem_word (word : Formula.IsWord s) : LaidItem [.word s] :=
  fun _ _ ends laid => laid_word word (fits_word_of_endsItem ends) laid

theorem laidItem_argument {a : Argument} (printable : a.Printable) : LaidItem a.pieces := by
  intro depth rest ends laid
  have value := laid_formula printable.value (fits_formula_of_endsItem ends) laid
  unfold Argument.pieces
  cases keyword : a.keyword with
  | none => exact value
  | some name =>
      exact laid_word (printable.keyword name keyword) rfl
        (laid_blank (laid_mark ⟨rfl, rfl⟩ rfl (laid_blank value)))

theorem laid_separated {items : List (List Piece)} (each : ∀ item ∈ items, LaidItem item)
    (ends : rest.head? = some (.mark .closeParen)) (laid : Laid depth rest) :
    Laid depth (separated items ++ rest) := by
  induction items with
  | nil => exact laid
  | cons item others ih =>
      obtain ⟨here, behind⟩ := List.forall_mem_cons.1 each
      cases others with
      | nil =>
          rw [separated, List.intercalate_singleton]
          exact here depth rest (.inr ends) laid
      | cons next more =>
          rw [separated, List.intercalate_cons_cons, List.append_assoc, List.append_assoc]
          exact here depth _ (.inl rfl) (laid_mark ⟨rfl, rfl⟩ rfl (laid_blank (ih behind)))

/-- The line of a condition. -/
theorem laid_condition {keyword : String} (word : Formula.IsWord keyword)
    (printable : v.Printable) : Laid 0 [.word keyword, .blank, .formula v, .mark .colon] :=
  laid_word word rfl (laid_blank (laid_formula printable rfl (laid_mark ⟨rfl, rfl⟩ rfl rfl)))

theorem isWord_statementWords : ∀ name ∈ statementWords, Formula.IsWord name := by
  intro name there
  simp only [statementWords, List.mem_cons, List.not_mem_nil, or_false] at there
  rcases there with rfl | rfl | rfl | rfl | rfl | rfl | rfl <;>
    exact ⟨_, _, rfl, rfl, rfl, List.all_eq_true.1 rfl⟩

theorem isWord_keyword (kind : DeclarationKind) : Formula.IsWord kind.keyword := by
  cases kind <;> exact ⟨_, _, rfl, rfl, rfl, List.all_eq_true.1 rfl⟩

mutual

theorem laid_lines (depth : Nat) : ∀ s : Statement, s.Printable →
    ∀ l ∈ s.sourceLines depth, Laid 0 l.pieces
  | .assign _ _ op _, printable => List.forall_mem_singleton.2 <|
      laid_word printable.1.1 rfl (laid_blank (laid_mark (plain_assignMark op) rfl
        (laid_blank (laid_formula printable.2 rfl rfl))))
  | .cond _ branches otherwise, printable => List.forall_mem_append.2
      ⟨laid_branchLines depth (isWord_statementWords "if" (by decide)) branches printable.2.1,
        laid_elseLines depth otherwise printable.2.2⟩
  | .loop _ _ body, printable => List.forall_mem_cons.2
      ⟨laid_condition (isWord_statementWords "while" (by decide)) printable.1,
        laid_blockLines (depth + 1) body printable.2.2⟩
  | .call _ _ arguments, printable => List.forall_mem_singleton.2 <|
      laid_word printable.1.1 rfl (laid_open (laid_separated
        (List.forall_mem_map.2 fun a there => laidItem_argument (printable.2.1 a there))
        rfl (laid_close rfl)))
  | .return _ none, _ => List.forall_mem_singleton.2
      (laid_word (isWord_statementWords "return" (by decide)) rfl rfl)
  | .return _ (some v), printable => List.forall_mem_singleton.2 <|
      laid_word (isWord_statementWords "return" (by decide)) rfl
        (laid_blank (laid_formula (printable v rfl) rfl rfl))
  | .pass _, _ => List.forall_mem_singleton.2
      (laid_word (isWord_statementWords "pass" (by decide)) rfl rfl)
  | .assembly _ _, printable => printable.elim

theorem laid_branchLines (depth : Nat) {keyword : String} (word : Formula.IsWord keyword) :
    ∀ branches : List (SourceFormula × List Statement), BranchesPrintable branches →
      ∀ l ∈ branchLines depth keyword branches, Laid 0 l.pieces
  | [], _ => fun _ none' => absurd none' List.not_mem_nil
  | (_, body) :: rest, printable => List.forall_mem_cons.2
      ⟨laid_condition word printable.1, List.forall_mem_append.2
        ⟨laid_blockLines (depth + 1) body printable.2.2.1,
          laid_branchLines depth (isWord_statementWords "elif" (by decide)) rest printable.2.2.2⟩⟩

theorem laid_elseLines (depth : Nat) : ∀ body : List Statement, BlockPrintable body →
    ∀ l ∈ elseLines depth body, Laid 0 l.pieces
  | [], _ => fun _ none' => absurd none' List.not_mem_nil
  | s :: rest, printable => List.forall_mem_cons.2
      ⟨laid_word (isWord_statementWords "else" (by decide)) rfl (laid_mark ⟨rfl, rfl⟩ rfl rfl),
        List.forall_mem_append.2 ⟨laid_lines (depth + 1) s printable.1,
          laid_blockLines (depth + 1) rest printable.2⟩⟩

theorem laid_blockLines (depth : Nat) : ∀ body : List Statement, BlockPrintable body →
    ∀ l ∈ blockLines depth body, Laid 0 l.pieces
  | [], _ => fun _ none' => absurd none' List.not_mem_nil
  | s :: rest, printable => List.forall_mem_append.2
      ⟨laid_lines depth s printable.1, laid_blockLines depth rest printable.2⟩

end

theorem laid_attributes {attributes : List (String × Position)}
    (words : ∀ a ∈ attributes, Formula.IsWord a.1) : Laid 0 (attributePieces attributes) := by
  induction attributes with
  | nil => rfl
  | cons a rest ih =>
      obtain ⟨word, others⟩ := List.forall_mem_cons.1 words
      have fits : (Piece.word a.1).fits (attributePieces rest).head? = true := by
        cases rest <;> rfl
      exact laid_mark ⟨rfl, rfl⟩ rfl (laid_blank (laid_word word fits (ih others)))

theorem laid_declaration {d : Declaration} (printable : d.Printable) :
    Laid 0 (.word d.kind.keyword :: d.pieces) := by
  have attributes := laid_attributes printable.attributes
  have fitsWord : ∀ s, (Piece.word s).fits (attributePieces d.attributes).head? = true := by
    intro s
    cases d.attributes <;> rfl
  have fitsFormula : ∀ v, (Piece.formula v).fits (attributePieces d.attributes).head? = true := by
    intro v
    cases d.attributes <;> rfl
  have named : Laid 0 (.blank :: .word d.name ::
      (valuePieces d.value ++ attributePieces d.attributes)) := by
    cases value : d.value with
    | none => exact laid_blank (laid_word printable.name (fitsWord d.name) attributes)
    | some v =>
        exact laid_blank (laid_word printable.name rfl (laid_blank (laid_mark ⟨rfl, rfl⟩ rfl
          (laid_blank (laid_formula (printable.value v value) (fitsFormula v) attributes)))))
  unfold Declaration.pieces
  cases encoding : d.encoding with
  | none => exact laid_word (isWord_keyword d.kind) rfl named
  | some name =>
      exact laid_word (isWord_keyword d.kind) rfl (laid_mark ⟨rfl, rfl⟩ rfl
        (laid_word (printable.encoding name encoding) rfl (laid_mark ⟨rfl, rfl⟩ rfl named)))

theorem laid_procedure {p : Procedure} (printable : p.Printable) :
    Laid 0 (.word "def" :: p.pieces) := by
  have parameters : ∀ item ∈ p.parameters.map fun x => [Piece.word x], LaidItem item :=
    List.forall_mem_map.2 fun x there => laidItem_word (printable.parameters x there)
  have closing : Laid 1 [.mark .closeParen, .mark .colon] :=
    laid_close (laid_mark ⟨rfl, rfl⟩ rfl rfl)
  rw [Procedure.pieces, List.append_assoc]
  exact laid_word (isWord_statementWords "def" (by decide)) rfl (laid_blank
    (laid_word printable.name rfl (laid_open (laid_separated parameters rfl closing))))

theorem laid_item {item : Item} (printable : item.Printable) :
    ∀ l ∈ item.sourceLines, Laid 0 l.pieces := by
  cases item with
  | declaration d => exact List.forall_mem_singleton.2 (laid_declaration printable)
  | procedure p =>
      exact List.forall_mem_cons.2
        ⟨laid_procedure printable, laid_blockLines 1 p.body printable.body⟩
  | statement s => exact laid_lines 0 s printable

end Laid

/-! ## The lines are nested -/

/-- Lines of some depth and deeper ones, whatever stands behind them on a level around. -/
def Nests (depth : Nat) (lines : List Line) : Prop :=
  ∀ more, (∀ d, depth ≤ d + 1 → Nested d more) → ∀ d, depth ≤ d + 1 → Nested d (lines ++ more)

section Nests

variable {depth : Nat} {a b : List Line} {head : String} {rest : List Piece}

theorem nests_nil : Nests depth [] := fun _ behind => behind

theorem Nests.append (first : Nests depth a) (second : Nests depth b) : Nests depth (a ++ b) := by
  intro more behind d le
  rw [List.append_assoc]
  exact first _ (second more behind) d le

/-- A line, and the deeper ones behind it. -/
theorem nests_cons (inner : Nests (depth + 1) a) : Nests depth (⟨depth, head, rest⟩ :: a) :=
  fun more behind _ le =>
    ⟨le, inner more (fun d le' => behind d (by omega)) depth (Nat.le_refl _)⟩

mutual

theorem nests_lines (depth : Nat) : ∀ s : Statement, Nests depth (s.sourceLines depth)
  | .assign .. | .call .. | .return _ none | .return _ (some _) | .pass _ => nests_cons nests_nil
  | .cond _ branches otherwise =>
      (nests_branchLines depth "if" branches).append (nests_elseLines depth otherwise)
  | .loop _ _ body => nests_cons (nests_blockLines (depth + 1) body)
  | .assembly _ _ => nests_nil

theorem nests_branchLines (depth : Nat) (keyword : String) :
    ∀ branches : List (SourceFormula × List Statement),
      Nests depth (branchLines depth keyword branches)
  | [] => nests_nil
  | (_, body) :: rest =>
      (nests_cons (nests_blockLines (depth + 1) body)).append (nests_branchLines depth "elif" rest)

theorem nests_elseLines (depth : Nat) :
    ∀ body : List Statement, Nests depth (elseLines depth body)
  | [] => nests_nil
  | s :: rest =>
      nests_cons ((nests_lines (depth + 1) s).append (nests_blockLines (depth + 1) rest))

theorem nests_blockLines (depth : Nat) :
    ∀ body : List Statement, Nests depth (blockLines depth body)
  | [] => nests_nil
  | s :: rest => (nests_lines depth s).append (nests_blockLines depth rest)

end

theorem nests_item (item : Item) : Nests 0 item.sourceLines := by
  cases item with
  | declaration d => exact nests_cons nests_nil
  | procedure p => exact nests_cons (nests_blockLines 1 p.body)
  | statement s => exact nests_lines 0 s

theorem nests_items (items : List Item) : Nests 0 (items.flatMap Item.sourceLines) := by
  induction items with
  | nil => exact nests_nil
  | cons item rest ih => exact (nests_item item).append ih

end Nests

end PulseSequencer.Ppp
