import PulseSequencer.Program.Assembler
import PulseSequencer.Ppp.Assembly
import PulseSequencer.Proofs.Except
import PulseSequencer.Proofs.Formula.Enclosure
import PulseSequencer.Proofs.Ppp.Names
import PulseSequencer.Proofs.Text.Lines

/-
# PulseSequencer.Proofs.Ppp.Printing -- the assembler reads what the compiler prints

A line whose names are names is read for what it is: `readLine_label` and its siblings say
what the first pass does with each kind of line, and `readLine_printed` what it makes of a
draft where it accepts the line.
-/

namespace PulseSequencer.Ppp

open PulseSequencer.Text (withoutReturn trim trimRight isBlank splitFirst?)
open PulseSequencer.Assembler
open PulseSequencer.Formula (Enclosed nestingMarks)

set_option autoImplicit false

/-! ## Lines with names in them -/

/-- A line whose names are names. -/
def AssemblyLine.Neat : AssemblyLine → Prop
  | .cell name _ | .constant name _ | .label name => IsName name.toList
  | .instruction _ operands => ∀ operand ∈ operands, IsName operand.toList
  | .verbatim _ => False

/-- What the assembler sees of the text behind a declared name. -/
def seen (text : List Char) : List Char := trimRight (SourceSet.withoutComment (withoutReturn text))

/-- What the first pass makes of a draft with a line. -/
def Draft.Reads (d : Draft) : AssemblyLine → Draft → Prop
  | .cell name declared, d' => isIdentifier name.toList = true ∧
      d.vars.contains name = false ∧ ∃ v comment,
      d.readVariable name (fields (seen (joinFields declared).toList)) comment = .ok v ∧
        d' = { d with vars := d.vars.insert name v }
  | .constant name value, d' => ∃ v, d.evaluate (String.ofList (seen value.toList)) = .ok v ∧
      d' = { d with constants := d.constants.insert name v }
  | .label name, d' => isIdentifier name.toList = true ∧ d.labels.contains name = false ∧
      d' = { d with labels := d.labels.insert name d.statements.size }
  | .instruction opcode operands, d' => ∃ line,
      d' = { d with statements :=
        d.statements.push ⟨opcode, operands.map String.toList, line⟩ }
  | .verbatim _, _ => False

/-! ## Mnemonics -/

theorem mnemonic_isName (op : Opcode) : IsName op.mnemonic.toList := by
  cases op <;> decide

theorem mnemonic_upper (op : Opcode) :
    op.mnemonic.toList.map Char.toUpper = op.mnemonic.toList := by
  cases op <;> decide

theorem ofMnemonic?_mnemonic (op : Opcode) : Opcode.ofMnemonic? op.mnemonic = some op := by
  cases op <;> decide

/-! ## Words of a line -/

theorem after?_none {head cs : List Char} {c : Char} (there : c ∈ head) (absent : c ∉ cs) :
    Text.after? head cs = none := by
  cases found : Text.after? head cs with
  | none => rfl
  | some rest =>
      rw [Text.after?_eq_some found] at absent
      exact absurd (List.mem_append_left rest there) absent

/-- Inside a text that encloses its commas nothing is cut. -/
theorem splitFields_of_enclosed {n : Nesting} {a b : List Char} (enclosed : Enclosed n (a ++ b)) :
    splitFields n a = [a] := by
  induction a generalizing n with
  | nil => rfl
  | cons c rest ih =>
      obtain ⟨comma, _, onward⟩ := enclosed
      rw [splitFields, if_neg, ih onward]
      rintro ⟨is, level, none'⟩
      have := comma is none'
      omega

/-- Commas inside brackets and quotes separate no fields. -/
theorem splitFields_enclosed {n : Nesting} {cs : List Char} (enclosed : Enclosed n cs)
    (rest : List Char) : splitFields n (cs ++ ',' :: rest) = cs :: splitFields {} rest := by
  induction cs generalizing n with
  | nil =>
      obtain rfl : n = {} := enclosed
      rw [List.nil_append, splitFields, if_pos ⟨rfl, rfl, rfl⟩]
  | cons c more ih =>
      obtain ⟨comma, _, onward⟩ := enclosed
      rw [List.cons_append, splitFields, if_neg, ih onward]
      rintro ⟨is, level, none'⟩
      have := comma is none'
      omega

theorem splitFields_whole {n : Nesting} {cs : List Char} (enclosed : Enclosed n cs) :
    splitFields n cs = [cs] :=
  splitFields_of_enclosed (b := []) (by rwa [List.append_nil])

theorem enclosed_of_plain {cs : List Char} (plain : ∀ c ∈ cs, c ∉ nestingMarks) :
    Enclosed {} cs := by
  have enclosed : Enclosed {} (cs ++ []) := (Formula.enclosed_append plain).2 rfl
  rwa [List.append_nil] at enclosed

theorem intercalate_toList (first : String) (rest : List String) :
    (", ".intercalate (first :: rest)).toList =
      first.toList ++ rest.flatMap fun f => ',' :: ' ' :: f.toList := by
  induction rest generalizing first with
  | nil => simp
  | cons second rest ih =>
      rw [String.intercalate_cons_cons, String.toList_append, String.toList_append, ih]
      simp

theorem isNamePart_marks : nestingMarks.all (fun m => !isNamePart m) = true := by decide

theorem IsName.plain {cs : List Char} (name : IsName cs) : ∀ c ∈ cs, c ∉ nestingMarks :=
  fun c there => Formula.plain_of isNamePart_marks (name.parts c there)

/-- A blank in front of a field goes. -/
theorem trim_space (cs : List Char) : trim (' ' :: cs) = trim cs := by
  rw [trim, Text.trimLeft, List.dropWhile_cons, if_pos (by decide)]
  rfl

/-- A word that no mark and no blank is in; it may be empty. -/
structure Solid (cs : List Char) : Prop where
  plain : ∀ c ∈ cs, c ∉ nestingMarks
  not_blank : ∀ c ∈ cs, isBlank c = false

theorem IsName.enclosed {cs : List Char} (name : IsName cs) : Enclosed {} cs :=
  enclosed_of_plain name.plain

theorem IsName.solid {cs : List Char} (name : IsName cs) : Solid cs := ⟨name.plain, name.not_blank⟩

/-- The fields between commas are the words that were joined behind the first one. -/
theorem splitFields_words {cs : List Char} (enclosed : Enclosed {} cs) {rest : List String}
    (words : ∀ f ∈ rest, Solid f.toList) :
    (splitFields {} (cs ++ rest.flatMap fun f => ',' :: ' ' :: f.toList)).map trim =
      trim cs :: rest.map String.toList := by
  induction rest generalizing cs with
  | nil =>
      rw [List.flatMap_nil, List.append_nil, splitFields_whole enclosed]
      rfl
  | cons word others ih =>
      obtain ⟨solid, areSolid⟩ := List.forall_mem_cons.1 words
      have spaced : Enclosed {} (' ' :: word.toList) :=
        enclosed_of_plain (List.forall_mem_cons.2 ⟨by decide, solid.plain⟩)
      have onward := ih spaced areSolid
      rw [List.flatMap_cons, List.cons_append, splitFields_enclosed enclosed, List.map_cons,
        List.cons_append, ← List.cons_append, onward, trim_space,
        Text.trim_of_free solid.not_blank, List.map_cons]

theorem withoutComment_append {a : List Char} (free : '#' ∉ a) (b : List Char) :
    SourceSet.withoutComment (a ++ b) = a ++ SourceSet.withoutComment b := by
  unfold SourceSet.withoutComment
  rw [List.takeWhile_append_of_pos]
  intro c there
  exact decide_eq_true fun same => free (same ▸ there)

theorem splitComment_fst (line : List Char) :
    (splitComment line).1 = trim (SourceSet.withoutComment line) := by
  have split' := Text.takeWhile_eq_splitFirst? (fun c => decide (c = '#')) line
  have same : SourceSet.withoutComment line = line.takeWhile fun c => !decide (c = '#') := by
    unfold SourceSet.withoutComment
    congr 1
    funext c
    exact decide_not
  rw [same, split', splitComment]
  cases splitFirst? (fun c => decide (c = '#')) line with
  | none => rfl
  | some found => rfl

/-- The code of a line is its one word. -/
theorem code_of_free {line : List Char} (noComment : '#' ∉ line)
    (free : ∀ c ∈ line, isBlank c = false) :
    trim (SourceSet.withoutComment line) = line := by
  rw [← List.append_nil line, withoutComment_append noComment]
  exact (congrArg trim (List.append_nil line)).trans
    ((Text.trim_of_free free).trans (List.append_nil line).symm)

/-- The code of a declaration: the keyword, the name, and what is seen of the rest. -/
theorem code_of_declaration {keyword name : List Char} (text : List Char) (word : IsName keyword)
    (isName : IsName name) :
    trim (SourceSet.withoutComment (withoutReturn (keyword ++ ' ' :: (name ++ ' ' :: text)))) =
      keyword ++ ' ' :: (name ++ if seen text = [] then [] else ' ' :: seen text) := by
  have split' : keyword ++ ' ' :: (name ++ ' ' :: text) =
      (keyword ++ ' ' :: name ++ [' ']) ++ text := by simp
  have noComment : '#' ∉ keyword ++ ' ' :: name ++ [' '] := by
    simp [word.not_mem (d := '#') (by decide), isName.not_mem (d := '#') (by decide)]
  have keeps : (keyword ++ ' ' :: name ++ [' ']).getLast? ≠ some '\r' := by
    rw [List.getLast?_concat]
    decide
  rw [split', Text.withoutReturn_append keeps, withoutComment_append noComment]
  have onName : trimRight (name ++ ' ' :: SourceSet.withoutComment (withoutReturn text)) =
      name ++ if seen text = [] then [] else ' ' :: seen text := by
    rw [seen]
    by_cases none' : trimRight (SourceSet.withoutComment (withoutReturn text)) = []
    · rw [if_pos none', Text.trimRight_of_blank
        (by rw [Text.trimRight_blank (by decide), if_pos none']), List.append_nil]
      exact (Text.trimRight_of_free isName.not_blank)
    · have ends : trimRight (' ' :: SourceSet.withoutComment (withoutReturn text)) =
          ' ' :: trimRight (SourceSet.withoutComment (withoutReturn text)) := by
        rw [Text.trimRight_blank (by decide), if_neg none']
      rw [if_neg none', Text.trimRight_append (by rw [ends]; exact List.cons_ne_nil _ _), ends]
  have some' : trimRight (name ++ ' ' :: SourceSet.withoutComment (withoutReturn text)) ≠ [] := by
    rw [onName]
    exact fun none' => isName.some' (List.append_eq_nil_iff.1 none').1
  have shape : keyword ++ ' ' :: name ++ [' '] ++ SourceSet.withoutComment (withoutReturn text) =
      keyword ++ ' ' :: (name ++ ' ' :: SourceSet.withoutComment (withoutReturn text)) := by simp
  rw [shape, Text.trim_word word.some' word.not_blank, Text.trimRight_blank (by decide),
    if_neg some', onName]

/-- The name and the rest of a declaration are found at the first blank. -/
theorem splitFirst?_declaration {name text : List Char} (isName : IsName name) :
    splitFirst? isBlank (trim (name ++ if seen text = [] then [] else ' ' :: seen text)) =
      if seen text = [] then none else some (name, seen text) := by
  split
  · rw [List.append_nil, Text.trim_of_free isName.not_blank,
      Text.splitFirst?_none isName.not_blank]
  · rename_i some'
    have idem : trimRight (seen text) = seen text := Text.trimRight_idem _
    have ends : trimRight (' ' :: seen text) = ' ' :: seen text := by
      rw [Text.trimRight_blank (by decide), idem, if_neg some']
    rw [Text.trim_word isName.some' isName.not_blank, ends,
      Text.splitFirst?_append isName.not_blank (by decide)]

/-! ## Lines -/

theorem cell_toList (name : String) (declared : List String) :
    (AssemblyLine.cell name declared).text.toList =
      ['v', 'a', 'r'] ++ ' ' :: (name.toList ++ ' ' :: (joinFields declared).toList) := by
  show ("var " ++ name ++ " " ++ joinFields declared).toList = _
  simp

theorem constant_toList (name value : String) :
    (AssemblyLine.constant name value).text.toList =
      ['c', 'o', 'n', 's', 't'] ++ ' ' :: (name.toList ++ ' ' :: value.toList) := by
  show ("const " ++ name ++ " " ++ value).toList = _
  simp

theorem label_toList (name : String) :
    (AssemblyLine.label name).text.toList = name.toList ++ [':'] := by
  show (name ++ ":").toList = _
  simp

/-- What stands behind a mnemonic. -/
def operandText (operands : List String) : List Char := (", ".intercalate operands).toList

theorem instruction_toList (op : Opcode) (operands : List String) :
    (AssemblyLine.instruction op operands).text.toList =
      op.mnemonic.toList ++ if operands = [] then [] else ' ' :: operandText operands := by
  cases operands with
  | nil => simp [AssemblyLine.text]
  | cons first rest => simp [AssemblyLine.text, operandText]

section Operands

variable {first : String} {rest : List String}
  (names : ∀ name ∈ first :: rest, IsName name.toList)
include names

/-- The characters of operands. -/
theorem mem_operandText {c : Char} (there : c ∈ operandText (first :: rest)) :
    isNamePart c = true ∨ c = ',' ∨ c = ' ' := by
  rw [operandText, intercalate_toList, List.mem_append, List.mem_flatMap] at there
  rcases there with here | ⟨name, inRest, there⟩
  · exact .inl ((names first (List.mem_cons_self ..)).parts c here)
  rcases List.mem_cons.1 there with comma | there
  · exact .inr (.inl comma)
  rcases List.mem_cons.1 there with space | there
  · exact .inr (.inr space)
  · exact .inl ((names name (List.mem_cons_of_mem _ inRest)).parts c there)

/-- A mark that stands in no operand. -/
theorem not_mem_operandText {mark : Char} (never : isNamePart mark = false) (comma : mark ≠ ',')
    (space : mark ≠ ' ') : mark ∉ operandText (first :: rest) := by
  intro there
  rcases mem_operandText names there with part | same | same
  · exact Bool.false_ne_true (never.symm.trans part)
  · exact comma same
  · exact space same

theorem operandText_ne_nil : operandText (first :: rest) ≠ [] := by
  rw [operandText, intercalate_toList]
  exact fun none' => (names first (List.mem_cons_self ..)).some' (List.append_eq_nil_iff.1 none').1

/-- Operands end with a name. -/
theorem trimRight_operandText :
    trimRight (operandText (first :: rest)) = operandText (first :: rest) := by
  have ends : ∀ {name : String}, IsName name.toList →
      trimRight name.toList = name.toList ∧ trimRight name.toList ≠ [] := fun isName => by
    rw [Text.trimRight_of_free isName.not_blank]
    exact ⟨rfl, isName.some'⟩
  rw [operandText, intercalate_toList]
  rcases List.eq_nil_or_concat rest with rfl | ⟨others, last, rfl⟩
  · rw [List.flatMap_nil, List.append_nil]
    exact (ends (names first (List.mem_cons_self ..))).1
  · obtain ⟨same, some'⟩ := ends (names last (by simp))
    have cut : first.toList ++ (others.concat last).flatMap (fun f => ',' :: ' ' :: f.toList) =
        (first.toList ++ others.flatMap (fun f => ',' :: ' ' :: f.toList) ++ [',', ' ']) ++
          last.toList := by simp
    rw [cut, Text.trimRight_append some', same]

theorem fields_operandText :
    fields (operandText (first :: rest)) = (first :: rest).map String.toList := by
  obtain ⟨isName, areNames⟩ := List.forall_mem_cons.1 names
  rw [fields, operandText, intercalate_toList, splitFields_words isName.enclosed
    fun name there => (areNames name there).solid, Text.trim_of_free isName.not_blank]
  split
  · rename_i empty
    exact absurd (List.cons.inj empty).1 (names first (List.mem_cons_self ..)).some'
  · rfl

end Operands

/-- A mark that stands in no line of code. -/
theorem not_mem_instruction (op : Opcode) {operands : List String}
    (names : ∀ name ∈ operands, IsName name.toList) {mark : Char} (never : isNamePart mark = false)
    (comma : mark ≠ ',') (space : mark ≠ ' ') :
    mark ∉ (AssemblyLine.instruction op operands).text.toList := by
  have word := (mnemonic_isName op).not_mem never
  rw [instruction_toList]
  cases operands with
  | nil => simpa using word
  | cons first rest => simp [word, space, not_mem_operandText names never comma space]

section Code

/-- The characters of a name and the marks of a line that is no declaration. -/
theorem code_of_label {name : List Char} (isName : IsName name) :
    trim (SourceSet.withoutComment (withoutReturn (name ++ [':']))) = name ++ [':'] := by
  have noReturn : '\r' ∉ name ++ [':'] := by
    simp [isName.not_mem (d := '\r') (by decide)]
  have noComment : '#' ∉ name ++ [':'] := by
    simp [isName.not_mem (d := '#') (by decide)]
  rw [Text.withoutReturn_of_free noReturn, code_of_free noComment]
  intro c there
  rcases List.mem_append.1 there with inName | colon
  · exact isName.not_blank c inName
  · rw [List.mem_singleton.1 colon]
    decide

theorem code_of_instruction (op : Opcode) {operands : List String}
    (names : ∀ name ∈ operands, IsName name.toList) :
    trim (SourceSet.withoutComment (withoutReturn
      (op.mnemonic.toList ++ if operands = [] then [] else ' ' :: operandText operands))) =
        op.mnemonic.toList ++ if operands = [] then [] else ' ' :: operandText operands := by
  have word := mnemonic_isName op
  have noReturn : '\r' ∉ (AssemblyLine.instruction op operands).text.toList :=
    not_mem_instruction op names (by decide) (by decide) (by decide)
  have noComment : '#' ∉ (AssemblyLine.instruction op operands).text.toList :=
    not_mem_instruction op names (by decide) (by decide) (by decide)
  rw [instruction_toList] at noReturn noComment
  rw [Text.withoutReturn_of_free noReturn]
  cases operands with
  | nil =>
      rw [if_pos rfl, List.append_nil, code_of_free (word.not_mem (by decide)) word.not_blank]
  | cons first rest =>
      have whole := withoutComment_append noComment []
      rw [List.append_nil] at whole
      rw [whole, SourceSet.withoutComment, List.takeWhile_nil, List.append_nil,
        if_neg (List.cons_ne_nil first rest), Text.trim_word word.some' word.not_blank,
        Text.trimRight_blank (by decide), trimRight_operandText names,
        if_neg (operandText_ne_nil names)]

/-- The mnemonic does not start with a lower-case letter. -/
theorem after?_mnemonic {op : Opcode} {head rest : List Char} {c : Char}
    (lower : c.toUpper ≠ c) : Text.after? (c :: head) (op.mnemonic.toList ++ rest) = none := by
  cases found : Text.after? (c :: head) (op.mnemonic.toList ++ rest) with
  | none => rfl
  | some behind =>
      have starts := Text.after?_eq_some found
      have upper := mnemonic_upper op
      cases letters : op.mnemonic.toList with
      | nil => exact absurd letters (mnemonic_isName op).some'
      | cons d others =>
          rw [letters] at starts upper
          obtain ⟨rfl, _⟩ := List.cons.inj starts
          exact absurd (List.cons.inj upper).1 lower

end Code

section Reading

variable {d d' : Draft} {index : Nat}

/-- What a draft gets from a declaration of a variable that is read with a comment. -/
def Draft.withCell (d : Draft) (name : String) (declared : List String)
    (comment : Option (List Char)) : Pass Draft :=
  if seen (joinFields declared).toList = [] then .error .variableShape
  else if !isIdentifier name.toList then .error (.invalidVariable name)
  else if d.vars.contains name then .error (.duplicateVariable name)
  else do
    let v ← d.readVariable name (fields (seen (joinFields declared).toList)) comment
    return { d with vars := d.vars.insert name v }

/-- A declaration of a variable adds it, with what stands behind a number sign. -/
theorem readLine_cell {name : String} (declared : List String) (isName : IsName name.toList) :
    d.readLine index (withoutReturn (AssemblyLine.cell name declared).text.toList) =
      Draft.withCell d name declared
        (splitComment (withoutReturn (AssemblyLine.cell name declared).text.toList)).2 := by
  have keyword : IsName ['v', 'a', 'r'] := by decide
  have code := code_of_declaration (joinFields declared).toList keyword isName
  rw [← splitComment_fst, ← cell_toList] at code
  rw [Draft.readLine]
  rcases split' : splitComment (withoutReturn (AssemblyLine.cell name declared).text.toList) with
    ⟨text, comment⟩
  rw [split'] at code
  dsimp only at code ⊢
  subst code
  have noConstant : ∀ rest, Text.after? ['c', 'o', 'n', 's', 't', ' ']
      (['v', 'a', 'r'] ++ rest) = none := fun _ => rfl
  have variable' : ∀ rest, Text.after? ['v', 'a', 'r', ' '] (['v', 'a', 'r'] ++ ' ' :: rest) =
      some rest := fun _ => rfl
  rw [if_neg (by simp)]
  simp only [noConstant, variable']
  rw [Draft.declareVariable, splitFirst?_declaration isName, Draft.withCell]
  split
  · rename_i found
    rw [if_pos (by simpa using found)]
    rfl
  · rename_i nameChars text found
    split at found
    · cases found
    · rename_i some'
      obtain ⟨rfl, rfl⟩ := Prod.mk.inj (Option.some.inj found)
      rw [if_neg some', String.ofList_toList]
      by_cases identifier : (!isIdentifier name.toList) = true
      · rw [if_pos identifier, if_pos identifier]
        rfl
      · rw [if_neg identifier, if_neg identifier]
        dsimp only
        split <;> rfl

/-- A declaration of a constant adds its value. -/
theorem readLine_constant {name : String} (value : String) (isName : IsName name.toList) :
    d.readLine index (withoutReturn (AssemblyLine.constant name value).text.toList) =
      if seen value.toList = [] then .error .constantShape
      else do
        let v ← d.evaluate (String.ofList (seen value.toList))
        return { d with constants := d.constants.insert name v } := by
  have keyword : IsName ['c', 'o', 'n', 's', 't'] := by decide
  have code := code_of_declaration value.toList keyword isName
  rw [← splitComment_fst, ← constant_toList] at code
  rw [Draft.readLine]
  rcases split' : splitComment (withoutReturn (AssemblyLine.constant name value).text.toList) with
    ⟨text, comment⟩
  rw [split'] at code
  dsimp only at code ⊢
  subst code
  have constant' : ∀ rest, Text.after? ['c', 'o', 'n', 's', 't', ' ']
      (['c', 'o', 'n', 's', 't'] ++ ' ' :: rest) = some rest := fun _ => rfl
  rw [if_neg (by simp)]
  simp only [constant']
  rw [Draft.declareConstant, splitFirst?_declaration isName]
  split
  · rename_i found
    rw [if_pos (by simpa using found)]
    rfl
  · rename_i nameChars text found
    split at found
    · cases found
    · rename_i some'
      obtain ⟨rfl, rfl⟩ := Prod.mk.inj (Option.some.inj found)
      rw [if_neg some', String.ofList_toList]

/-- A label is defined. -/
theorem readLine_label {name : String} (isName : IsName name.toList) :
    d.readLine index (withoutReturn (AssemblyLine.label name).text.toList) =
      d.defineLabel name.toList := by
  rw [label_toList]
  have code := code_of_label isName
  rw [← splitComment_fst] at code
  rw [Draft.readLine]
  rcases split' : splitComment (withoutReturn (name.toList ++ [':'])) with ⟨text, comment⟩
  rw [split'] at code
  dsimp only at code ⊢
  subst code
  have noBlank : ' ' ∉ name.toList ++ [':'] := by
    simp [isName.not_mem (d := ' ') (by decide)]
  have colon : splitFirst? (fun c => decide (c = ':')) (name.toList ++ [':']) =
      some (name.toList, []) :=
    Text.splitFirst?_append (fun c there => decide_eq_false fun same =>
      isName.not_mem (d := ':') (by decide) (same ▸ there)) rfl
  rw [if_neg (by simp), after?_none (c := ' ') (by decide) noBlank,
    after?_none (c := ' ') (by decide) noBlank, colon]
  dsimp only
  rw [Text.trim_of_free isName.not_blank]
  exact bind_pure (d.defineLabel name.toList)

/-- An instruction is added with its operands. -/
theorem readLine_instruction (op : Opcode) {operands : List String}
    (names : ∀ name ∈ operands, IsName name.toList) :
    d.readLine index (withoutReturn (AssemblyLine.instruction op operands).text.toList) =
      .ok { d with statements :=
        d.statements.push ⟨op, operands.map String.toList, index⟩ } := by
  have word := mnemonic_isName op
  have code := code_of_instruction op names
  rw [← splitComment_fst] at code
  rw [instruction_toList, Draft.readLine]
  rcases split' : splitComment (withoutReturn
    (op.mnemonic.toList ++ if operands = [] then [] else ' ' :: operandText operands)) with
    ⟨line, comment⟩
  rw [split'] at code
  dsimp only at code ⊢
  subst code
  have noColon : ∀ c ∈ op.mnemonic.toList ++
      (if operands = [] then [] else ' ' :: operandText operands), decide (c = ':') = false := by
    intro c there
    refine decide_eq_false ?_
    rintro rfl
    rw [← instruction_toList] at there
    exact not_mem_instruction op names (by decide) (by decide) (by decide) there
  rw [if_neg fun none' => word.some' (List.append_eq_nil_iff.1 none').1,
    after?_mnemonic (by decide), after?_mnemonic (by decide), Text.splitFirst?_none noColon]
  dsimp only
  have parts : (splitFirst? isBlank
      (op.mnemonic.toList ++ if operands = [] then [] else ' ' :: operandText operands)).getD
        (op.mnemonic.toList ++ (if operands = [] then [] else ' ' :: operandText operands), []) =
          (op.mnemonic.toList, operandText operands) := by
    cases operands with
    | nil =>
        rw [if_pos rfl, List.append_nil, Text.splitFirst?_none word.not_blank]
        rfl
    | cons first rest =>
        rw [if_neg (List.cons_ne_nil first rest),
          Text.splitFirst?_append word.not_blank (by decide)]
        rfl
  rw [Draft.addStatement, parts]
  dsimp only
  rw [mnemonic_upper, String.ofList_toList, ofMnemonic?_mnemonic]
  have kept : (fields (operandText operands)).filter (· ≠ []) = operands.map String.toList := by
    cases operands with
    | nil => rfl
    | cons first rest =>
        rw [fields_operandText names, List.filter_eq_self]
        intro cs there
        obtain ⟨name, inNames, rfl⟩ := List.mem_map.1 there
        exact decide_eq_true (names name inNames).some'
  dsimp only
  rw [kept]
  rfl

/-- **The first pass reads a printed line for what it is.** -/
theorem readLine_printed {line : AssemblyLine} (neat : line.Neat)
    (read : d.readLine index (withoutReturn line.text.toList) = .ok d') :
    Draft.Reads d line d' := by
  cases line with
  | cell name declared =>
      rw [readLine_cell declared neat, Draft.withCell] at read
      split at read
      · cases read
      · split at read
        · cases read
        · rename_i identifier
          split at read
          · cases read
          · rename_i absent
            obtain ⟨v, declared', result⟩ := bind_eq_ok.1 read
            exact ⟨by simpa using identifier, Bool.eq_false_iff.2 absent, v, _, declared',
              (Except.ok.inj result).symm⟩
  | constant name value =>
      rw [readLine_constant value neat] at read
      split at read
      · cases read
      · obtain ⟨v, evaluated, result⟩ := bind_eq_ok.1 read
        exact ⟨v, evaluated, (Except.ok.inj result).symm⟩
  | label name =>
      rw [readLine_label neat, Draft.defineLabel, String.ofList_toList] at read
      split at read
      · cases read
      · rename_i identifier
        split at read
        · cases read
        · rename_i absent
          exact ⟨by simpa using identifier, Bool.eq_false_iff.2 absent, (Except.ok.inj read).symm⟩
  | instruction op operands =>
      rw [readLine_instruction op neat] at read
      exact ⟨index, (Except.ok.inj read).symm⟩
  | verbatim text => exact absurd neat not_false

end Reading

end PulseSequencer.Ppp
