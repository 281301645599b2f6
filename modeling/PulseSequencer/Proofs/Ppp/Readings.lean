import PulseSequencer.Proofs.Ppp.Declaring
import PulseSequencer.Proofs.Ppp.Fields
import PulseSequencer.Proofs.Ppp.Loading
import PulseSequencer.Proofs.Ppp.Wiring

/-
# PulseSequencer.Proofs.Ppp.Readings -- the values that the assembler reads

The declaration lines of a source can be read without a program: each value is that of its
text, where the names of the lines before stand for what was read of them (`Readings`).
The first pass of the assembler accepts a declaration exactly if it can be read so and its
name is free (`readLine_of_line`, `line_of_reads`).
-/

namespace PulseSequencer.Ppp

open PulseSequencer.Assembler
open PulseSequencer.Formula (Enclosed)
open PulseSequencer.Text (trim trimRight withoutReturn)

set_option autoImplicit false

/-! ## Lines of a source -/

/-- The text of a declared value. -/
def Declaration.text (v : Declaration) : String := (v.value.map (·.text)).getD "0"

/-- The line of a declaration. -/
def Declaration.line (v : Declaration) : AssemblyLine :=
  if v.kind = .const then .constant v.name v.text
  else match Declared.attributes v with
    | .ok a => .cell v.name [v.text, a.type.getD "", (a.unit.map PhysicalUnit.symbol).getD "",
        a.encoding.getD ""]
    | .error _ => .cell v.name [v.text]

/-- The lines that an item is declared with. -/
def Item.lines : Item → List AssemblyLine
  | .declaration v => [v.line]
  | .procedure p => (Declared.cells p).map fun cell => .cell cell ["0"]
  | .statement _ => []

/-! ## Readings -/

/-- What has been read of declarations. -/
structure Readings where
  constants : Table String Value := Table.empty
  quantities : Table String Quantity := Table.empty

namespace Readings

/-- The values that a declaration may use. -/
def scope (r : Readings) : Formula.Scope := fun name =>
  match r.constants.get? name with
  | some v => some v
  | none => (r.quantities.get? name).map .quantity

/-- The value of a text that has neither a comment nor a second line. -/
def value? (r : Readings) (text : String) : Option Value :=
  if '#' ∈ text.toList ∨ '\n' ∈ text.toList then none
  else match Formula.Evaluator.default.evaluate text r.scope with
    | .ok evaluation => some evaluation.value
    | .error _ => none

/-- What is read of a line. -/
def line (r : Readings) : AssemblyLine → Option Readings
  | .constant name text => do
      let value ← r.value? text
      return { r with constants := r.constants.insert name value }
  | .cell name declared => do
      let value ← r.value? (declared.headD "")
      let quantity ← (declaredQuantity value (fieldAt? (declared.map String.toList) 2)).toOption
      return { r with quantities := r.quantities.insert name quantity }
  | _ => some r

end Readings

/-! ## Proper lines -/

/-- A field is there if it is not empty. -/
theorem fieldAt?_eq_some {declared : List String} {i : Nat} {name : String} :
    fieldAt? (declared.map String.toList) i = some name ↔ declared[i]? = some name ∧ name ≠ "" := by
  rw [fieldAt?, List.getElem?_map]
  cases declared[i]? with
  | none => simp
  | some field =>
      rw [Option.map_some]
      split
      · rename_i none'
        rw [String.toList_eq_nil_iff.1 (Option.some.inj none')]
        simp only [reduceCtorEq, Option.some.injEq, false_iff, not_and, not_not]
        exact Eq.symm
      · rename_i absent
        cases absent
      · rename_i some' found
        have is := Option.some.inj found
        rw [← is, String.ofList_toList]
        refine ⟨fun same => ⟨same, ?_⟩, And.left⟩
        rintro rfl
        obtain rfl := Option.some.inj same
        exact some' is.symm

/-- A value that encloses its commas, and words behind it: a type, a unit and an encoding. -/
structure ProperFields (value : String) (rest : List String) : Prop where
  encloses : Enclosed {} value.toList
  trimmed : trim value.toList = value.toList
  some' : value.toList ≠ []
  words : ∀ f ∈ rest, Solid f.toList
  type : ∀ name, fieldAt? ((value :: rest).map String.toList) 1 = some name →
    (VariableType.ofName? name).isSome = true
  encoding : ∀ name, fieldAt? ((value :: rest).map String.toList) 3 = some name →
    (Encoding.lookUp name).toOption.isSome = true

/-- A line as the compiler prints it. -/
def AssemblyLine.Proper : AssemblyLine → Prop
  | .cell name (value :: rest) => IsName name.toList ∧ ProperFields value rest
  | .cell _ [] => False
  | .constant name value => IsName name.toList ∧ ProperFields value []
  | line => line.Coded

theorem AssemblyLine.Coded.proper {line : AssemblyLine} (coded : line.Coded) : line.Proper := by
  match line, coded with
  | .label _, coded => exact coded
  | .instruction _ _, coded => exact coded

theorem AssemblyLine.Proper.neat {line : AssemblyLine} (proper : line.Proper) : line.Neat := by
  match line, proper with
  | .cell _ (_ :: _), proper => exact proper.1
  | .constant _ _, proper => exact proper.1
  | .label _, proper => exact AssemblyLine.Coded.neat proper
  | .instruction _ _, proper => exact AssemblyLine.Coded.neat proper
  | .verbatim _, proper => exact AssemblyLine.Coded.neat proper

/-- Behind a number sign nothing is seen. -/
theorem seen_of_sign {before : List Char} (free : '#' ∉ before) (behind : List Char) :
    seen (before ++ '#' :: behind) = trimRight before := by
  have cut : before ++ '#' :: behind = before ++ ['#'] ++ behind := by simp
  have keeps : (before ++ ['#']).getLast? ≠ some '\r' := by
    rw [List.getLast?_concat]
    decide
  rw [seen, cut, Text.withoutReturn_append keeps, List.append_assoc, withoutComment_append free,
    SourceSet.withoutComment, List.singleton_append, List.takeWhile_cons_of_neg (by decide),
    List.append_nil]

section Fields

variable {value : String} {rest : List String} (proper : ProperFields value rest)
include proper

theorem ProperFields.legible (unsigned : '#' ∉ value.toList) : Legible value rest :=
  ⟨proper.encloses, unsigned, proper.trimmed, proper.words⟩

/-- What is seen of a value with a number sign stays open. -/
theorem ProperFields.opened (sign : '#' ∈ value.toList) :
    splitFields {} (seen (joinFields (value :: rest)).toList) =
        [seen (joinFields (value :: rest)).toList] ∧
      nestingAfter {} (seen (joinFields (value :: rest)).toList) ≠ {} := by
  obtain ⟨before, behind, cut, free⟩ := List.eq_append_cons_of_mem sign
  have encloses := proper.encloses
  have alone : seen (joinFields (value :: rest)).toList = seen value.toList := by
    rw [joinFields_kept, cut, List.append_assoc, List.cons_append, seen_of_sign free,
      seen_of_sign free]
  obtain ⟨more, prefix'⟩ := seen_prefix value.toList
  rw [alone]
  refine ⟨splitFields_of_enclosed (b := more) (prefix' ▸ encloses), ?_⟩
  exact open_of_sign (b := []) (by rwa [List.append_nil]) sign

variable {d : Draft} {name : String} {comment : Option (List Char)}

/-- **A declaration is read as its value, in its unit.** -/
theorem ProperFields.readVariable (unsigned : '#' ∉ value.toList) {q : Quantity} :
    (∃ v, d.readVariable name (fields (seen (joinFields (value :: rest)).toList)) comment = .ok v ∧
      v.value = q) ↔ ∃ x, d.evaluate value = .ok x ∧
        declaredQuantity x (fieldAt? ((value :: rest).map String.toList) 2) = .ok q := by
  have read := (proper.legible unsigned).fieldAt?
  have first : (fieldAt? ((value :: rest).map String.toList) 0).getD "0" = value := by
    rw [fieldAt?_eq_some.2 ⟨rfl, fun none' => proper.some' (String.toList_eq_nil_iff.2 none')⟩]
    rfl
  obtain ⟨type, typed⟩ :
      ∃ type, declaredType (fieldAt? ((value :: rest).map String.toList) 1) = .ok type := by
    cases named : fieldAt? ((value :: rest).map String.toList) 1 with
    | none => exact ⟨_, rfl⟩
    | some name =>
        obtain ⟨type, found⟩ := Option.isSome_iff_exists.1 (proper.type name named)
        exact ⟨type, by rw [declaredType, found]⟩
  have encoded : (fieldAt? ((value :: rest).map String.toList) 3).map Encoding.lookUp = none ∨
      ∃ e, (fieldAt? ((value :: rest).map String.toList) 3).map Encoding.lookUp = some (.ok e) := by
    cases named : fieldAt? ((value :: rest).map String.toList) 3 with
    | none => exact .inl rfl
    | some name =>
        obtain ⟨e, known⟩ := Option.isSome_iff_exists.1 (proper.encoding name named)
        exact .inr ⟨e, congrArg some (ok_of_toOption known)⟩
  unfold Draft.readVariable
  rcases encoded with coded | ⟨e, coded⟩
  all_goals
    simp only [read, first, typed, coded]
    constructor
    · rintro ⟨v, made, rfl⟩
      obtain ⟨x, evaluated, made⟩ := bind_eq_ok.1 made
      obtain ⟨_, _, made⟩ := bind_eq_ok.1 made
      obtain ⟨q, measured, made⟩ := bind_eq_ok.1 made
      exact ⟨x, evaluated, Except.ok.inj made ▸ measured⟩
    · rintro ⟨x, evaluated, measured⟩
      exact ⟨_, bind_eq_ok.2 ⟨x, evaluated, bind_eq_ok.2 ⟨type, rfl,
        bind_eq_ok.2 ⟨q, measured, rfl⟩⟩⟩, rfl⟩

/-- **A value with a number sign is not read.** -/
theorem ProperFields.unread (sign : '#' ∈ value.toList) {v : Variable} :
    ¬ d.readVariable name (fields (seen (joinFields (value :: rest)).toList)) comment = .ok v := by
  intro read
  obtain ⟨whole, opened⟩ := proper.opened sign
  unfold Draft.readVariable at read
  obtain ⟨x, evaluated, _⟩ := bind_eq_ok.1 read
  rw [fieldAt?_of_open whole opened] at evaluated
  rw [← nestingAfter_trim] at opened
  exact not_parsed opened evaluated

end Fields

/-! ## Drafts and readings -/

/-- A draft whose names stand for what was read. -/
structure Readings.Agrees (r : Readings) (d : Draft) : Prop where
  constants : d.constants = r.constants
  quantities : ∀ name, (d.vars.get? name).map Variable.value = r.quantities.get? name

theorem agrees_empty : Readings.Agrees {} {} := ⟨rfl, fun _ => rfl⟩

section Agrees

variable {r r' : Readings} {d d' : Draft} {name text : String} {line : AssemblyLine}

theorem Readings.Agrees.scope (agrees : r.Agrees d) : d.scope = r.scope := by
  funext name
  rw [Draft.scope, Readings.scope, agrees.constants, ← agrees.quantities name, Option.map_map]
  rfl

theorem plain_of_value? {x : Value} (read : r.value? text = some x) :
    '#' ∉ text.toList ∧ '\n' ∉ text.toList := by
  unfold Readings.value? at read
  split at read
  · cases read
  · rename_i plain
    exact not_or.1 plain

theorem Readings.Agrees.evaluate (agrees : r.Agrees d) (unsigned : '#' ∉ text.toList)
    (one : '\n' ∉ text.toList) {x : Value} :
    d.evaluate text = .ok x ↔ r.value? text = some x := by
  rw [Draft.evaluate, Readings.value?, if_neg (not_or.2 ⟨unsigned, one⟩), agrees.scope]
  cases Formula.Evaluator.default.evaluate text r.scope <;> simp

theorem Readings.Agrees.addConstant (agrees : r.Agrees d) (x : Value) :
    Readings.Agrees { r with constants := r.constants.insert name x }
      { d with constants := d.constants.insert name x } :=
  ⟨congrArg (·.insert name x) agrees.constants, agrees.quantities⟩

theorem Readings.Agrees.addCell (agrees : r.Agrees d) (v : Variable) :
    Readings.Agrees { r with quantities := r.quantities.insert name v.value }
      { d with vars := d.vars.insert name v } where
  constants := agrees.constants
  quantities other := by
    rw [Table.get?_insert, Table.get?_insert, ← agrees.quantities other]
    split <;> rfl

/-- A name that can still be taken. -/
def Draft.Admits (d : Draft) : AssemblyLine → Prop
  | .cell name _ => isIdentifier name.toList = true ∧ d.vars.contains name = false
  | .label name => isIdentifier name.toList = true ∧ d.labels.contains name = false
  | _ => True

/-- **A line that can be read is accepted** if its name is free. -/
theorem readLine_of_line (proper : line.Proper) (agrees : r.Agrees d) (admits : Draft.Admits d line)
    (read : r.line line = some r') (index : Nat) :
    ∃ d', d.readLine index (withoutReturn line.text.toList) = .ok d' ∧ r'.Agrees d' := by
  match line, proper with
  | .cell name (value :: rest), ⟨isName, fields⟩ =>
      obtain ⟨identifier, absent⟩ := admits
      obtain ⟨x, valued, read⟩ := Option.bind_eq_some_iff.1 read
      obtain ⟨q, measured, result⟩ := Option.bind_eq_some_iff.1 read
      obtain rfl := Option.some.inj result
      obtain ⟨unsigned, one⟩ := plain_of_value? valued
      obtain ⟨v, made, rfl⟩ := (fields.readVariable unsigned).2
        ⟨x, (agrees.evaluate unsigned one).2 valued, ok_of_toOption measured⟩
      have some' : seen (joinFields (value :: rest)).toList ≠ [] := by
        rw [(fields.legible unsigned).seen, joinFields_toList]
        exact fun none' => fields.some' (List.append_eq_nil_iff.1 none').1
      rw [readLine_cell _ isName, Draft.withCell, if_neg some', if_neg (by simp [identifier]),
        if_neg (by simp [absent]), made]
      exact ⟨_, rfl, agrees.addCell v⟩
  | .constant name value, ⟨isName, fields⟩ =>
      obtain ⟨x, valued, result⟩ := Option.bind_eq_some_iff.1 read
      obtain rfl := Option.some.inj result
      obtain ⟨unsigned, one⟩ := plain_of_value? valued
      have whole : seen value.toList = value.toList :=
        seen_of_trimRight (trimRight_of_trim fields.trimmed) unsigned
      rw [readLine_constant value isName, whole, if_neg fields.some', String.ofList_toList,
        (agrees.evaluate unsigned one).2 valued]
      exact ⟨_, rfl, agrees.addConstant x⟩
  | .label name, coded =>
      obtain ⟨identifier, absent⟩ := admits
      obtain rfl := Option.some.inj read
      rw [readLine_label (AssemblyLine.Coded.neat coded), Draft.defineLabel, String.ofList_toList,
        if_neg (by simp [identifier]), if_neg (by simp [absent])]
      exact ⟨_, rfl, agrees.constants, agrees.quantities⟩
  | .instruction op operands, coded =>
      obtain rfl := Option.some.inj read
      rw [readLine_instruction op (AssemblyLine.Coded.neat coded)]
      exact ⟨_, rfl, agrees.constants, agrees.quantities⟩
  | .verbatim _, coded => cases coded

/-- **A line that was accepted can be read** if it is one line. -/
theorem line_of_reads (proper : line.Proper) (one : '\n' ∉ line.text.toList) (agrees : r.Agrees d)
    (reads : Draft.Reads d line d') : ∃ r', r.line line = some r' ∧ r'.Agrees d' := by
  match line, proper with
  | .cell name (value :: rest), ⟨isName, fields⟩ =>
      obtain ⟨_, _, v, comment, made, rfl⟩ := reads
      have unsigned : '#' ∉ value.toList := fun sign => fields.unread sign made
      have oneValue : '\n' ∉ value.toList := fun feed => one (by
        rw [cell_toList, joinFields_toList]
        simp [feed])
      obtain ⟨x, evaluated, measured⟩ := (fields.readVariable unsigned).1 ⟨v, made, rfl⟩
      refine ⟨_, ?_, agrees.addCell v⟩
      refine Option.bind_eq_some_iff.2 ⟨x, (agrees.evaluate unsigned oneValue).1 evaluated, ?_⟩
      exact Option.bind_eq_some_iff.2 ⟨v.value, by rw [measured]; rfl, rfl⟩
  | .constant name value, ⟨isName, fields⟩ =>
      obtain ⟨x, evaluated, rfl⟩ := reads
      have unsigned : '#' ∉ value.toList := fun sign =>
        not_parsed (open_of_sign (b := []) (by rw [List.append_nil]; exact fields.encloses) sign)
          evaluated
      have oneValue : '\n' ∉ value.toList := fun feed => one (by
        rw [constant_toList]
        simp [feed])
      rw [seen_of_trimRight (trimRight_of_trim fields.trimmed) unsigned, String.ofList_toList]
        at evaluated
      exact ⟨_, Option.bind_eq_some_iff.2 ⟨x, (agrees.evaluate unsigned oneValue).1 evaluated, rfl⟩,
        agrees.addConstant x⟩
  | .label name, coded =>
      obtain ⟨_, _, rfl⟩ := reads
      exact ⟨r, rfl, agrees.constants, agrees.quantities⟩
  | .instruction op operands, coded =>
      obtain ⟨_, rfl⟩ := reads
      exact ⟨r, rfl, agrees.constants, agrees.quantities⟩
  | .verbatim _, coded => cases coded

/-- A line that can be read is one line. -/
theorem one_line_of_line (proper : line.Proper) (read : r.line line = some r') :
    '\n' ∉ line.text.toList := by
  match line, proper with
  | .cell name (value :: rest), ⟨isName, fields⟩ =>
      obtain ⟨x, valued, _⟩ := Option.bind_eq_some_iff.1 read
      exact cell_one_line isName (List.forall_mem_cons.2
        ⟨(plain_of_value? valued).2, fun f there => (fields.words f there).one_line⟩)
  | .constant name value, ⟨isName, fields⟩ =>
      obtain ⟨x, valued, _⟩ := Option.bind_eq_some_iff.1 read
      rw [constant_toList]
      simp [isName.one_line, (plain_of_value? valued).2]
  | .label _, coded => exact AssemblyLine.Coded.one_line coded
  | .instruction _ _, coded => exact AssemblyLine.Coded.one_line coded
  | .verbatim _, coded => cases coded

end Agrees

/-! ## All lines -/

section Lines

variable {lines : List AssemblyLine} {r r' : Readings} {d d' : Draft}

theorem one_line_of_lines (proper : ∀ line ∈ lines, line.Proper)
    (read : lines.foldlM Readings.line r = some r') : ∀ line ∈ lines, '\n' ∉ line.text.toList := by
  induction lines generalizing r with
  | nil => exact fun _ there => absurd there List.not_mem_nil
  | cons line rest ih =>
      obtain ⟨here, others⟩ := List.forall_mem_cons.1 proper
      rw [List.foldlM_cons] at read
      obtain ⟨middle, first, onward⟩ := Option.bind_eq_some_iff.1 read
      exact List.forall_mem_cons.2 ⟨one_line_of_line here first, ih others onward⟩

/-- **Lines that were accepted can be read.** -/
theorem readings_of_readsAll (proper : ∀ line ∈ lines, line.Proper)
    (one : ∀ line ∈ lines, '\n' ∉ line.text.toList) (agrees : r.Agrees d)
    (reads : Draft.ReadsAll d lines d') : ∃ r', lines.foldlM Readings.line r = some r' := by
  induction lines generalizing r d with
  | nil => exact ⟨r, rfl⟩
  | cons line rest ih =>
      obtain ⟨here, others⟩ := List.forall_mem_cons.1 proper
      obtain ⟨oneHere, oneThere⟩ := List.forall_mem_cons.1 one
      obtain ⟨e, first, onward⟩ := reads
      obtain ⟨middle, read, agrees'⟩ := line_of_reads here oneHere agrees first
      obtain ⟨last, ended⟩ := ih others oneThere agrees' onward
      exact ⟨last, by rw [List.foldlM_cons, read]; exact ended⟩

end Lines

/-! ## The declarations of a source -/

section Source

variable {map : SourceMap} {d next : Declared} {v : Declaration}

theorem lines_of_declare (declared : d.declare map v = .ok next) :
    next.lines.map PlacedLine.line = d.lines.map PlacedLine.line ++ [v.line] := by
  obtain ⟨value, evaluated, declared⟩ := bind_eq_ok.1 declared
  dsimp only at declared
  rw [Declaration.line]
  split at declared
  · rename_i const
    rw [if_pos const]
    split at declared
    · rename_i source x given
      obtain ⟨d', defined, result⟩ := bind_eq_ok.1 declared
      obtain ⟨scope, _, rfl⟩ := scope_of_declaredDefine defined
      rw [← Except.ok.inj result, Declaration.text, given]
      exact List.map_append
    · cases declared
  · rename_i notConst
    rw [if_neg notConst]
    obtain ⟨a, scope, initial, read, _, _, rfl⟩ := parts_of_declareVariable declared
    rw [read]
    exact List.map_append

theorem enclosed_zero : Enclosed {} "0".toList :=
  enclosed_of_plain (List.forall_mem_singleton.2 (by decide))

/-- The text of a value closes what it opens. -/
theorem Declaration.Wellformed.text (wellformed : v.Wellformed) :
    Enclosed {} v.text.toList ∧ trim v.text.toList = v.text.toList ∧ v.text.toList ≠ [] := by
  rw [Declaration.text]
  cases given : v.value with
  | none => exact ⟨enclosed_zero, rfl, List.cons_ne_nil _ _⟩
  | some source =>
      have made := wellformed.value source given
      refine ⟨Formula.enclosed_of_parse made.parsed, made.tight.trim, fun none' => ?_⟩
      obtain ⟨c, starts, _⟩ := made.tight.first
      rw [show source.text.toList = [] from none'] at starts
      cases starts

theorem proper_of_declare (wellformed : v.Wellformed) (declared : d.declare map v = .ok next) :
    v.line.Proper := by
  obtain ⟨encloses, trimmed, some'⟩ := wellformed.text
  rw [Declaration.line]
  split
  · exact ⟨wellformed.name, encloses, trimmed, some', fun _ there => absurd there List.not_mem_nil,
      fun _ found => (by cases found), fun _ found => (by cases found)⟩
  · rename_i notConst
    obtain ⟨value, _, declared⟩ := bind_eq_ok.1 declared
    dsimp only at declared
    rw [if_neg notConst] at declared
    obtain ⟨a, scope, initial, read, _⟩ := parts_of_declareVariable declared
    have known := known_of_attributes wellformed read
    have given : ∀ {o : Option String} {name : String}, some (o.getD "") = some name → name ≠ "" →
        o = some name := by
      intro o name same some'
      obtain rfl := Option.some.inj same
      cases o with
      | none => exact absurd rfl some'
      | some other => rfl
    rw [read]
    refine ⟨wellformed.name, encloses, trimmed, some', known.words, fun name found => ?_,
      fun name found => ?_⟩
    · obtain ⟨is, named⟩ := fieldAt?_eq_some.1 found
      exact (known.type name (given is named)).2
    · obtain ⟨is, named⟩ := fieldAt?_eq_some.1 found
      exact (known.encoding name (given is named)).2

/-- The line of a cell that starts at zero. -/
theorem proper_zero {name : String} (isName : IsName name.toList) :
    (AssemblyLine.cell name ["0"]).Proper :=
  ⟨isName, enclosed_zero, rfl, List.cons_ne_nil _ _,
    fun _ there => absurd there List.not_mem_nil, fun _ found => (by cases found),
    fun _ found => (by cases found)⟩

/-- **The lines before the code are those of the items.** -/
theorem lines_of_items {items : List Item} (wellformed : WellformedItems items)
    (established : items.foldlM (Declared.item map) d = .ok next) :
    next.lines.map PlacedLine.line = d.lines.map PlacedLine.line ++ items.flatMap Item.lines ∧
      ∀ line ∈ items.flatMap Item.lines, line.Proper := by
  induction items generalizing d with
  | nil =>
      obtain rfl := Except.ok.inj established
      exact ⟨(List.append_nil _).symm, fun _ there => absurd there List.not_mem_nil⟩
  | cons item rest ih =>
      rw [List.foldlM_cons] at established
      obtain ⟨d', first, onward⟩ := bind_eq_ok.1 established
      obtain ⟨formed, wellformed'⟩ := List.forall_mem_cons.1 wellformed
      have here : d'.lines.map PlacedLine.line = d.lines.map PlacedLine.line ++ item.lines ∧
          ∀ line ∈ item.lines, line.Proper := by
        cases item with
        | declaration v =>
            exact ⟨lines_of_declare first,
              List.forall_mem_singleton.2 (proper_of_declare formed first)⟩
        | procedure p =>
            obtain ⟨scope, _, rfl⟩ := scope_of_declaredDefine first
            refine ⟨?_, fun line there => ?_⟩
            · rw [Item.lines, List.map_append, List.map_map]
              rfl
            · obtain ⟨cell, inCells, rfl⟩ := List.mem_map.1 there
              obtain ⟨x, parameter, rfl⟩ := Declared.mem_cells.1 inCells
              exact proper_zero (isName_parameterCell formed.name (formed.parameters x parameter))
        | statement s =>
            obtain rfl := Except.ok.inj first
            exact ⟨(List.append_nil _).symm, fun _ there => absurd there List.not_mem_nil⟩
      obtain ⟨lines, proper⟩ := ih wellformed' onward
      rw [lines, here.1, List.flatMap_cons, List.append_assoc]
      exact ⟨rfl, List.forall_mem_append.2 ⟨here.2, proper⟩⟩

end Source

end PulseSequencer.Ppp
