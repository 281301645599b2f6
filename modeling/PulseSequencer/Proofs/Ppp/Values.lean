import PulseSequencer.Proofs.Formula.Enclosure
import PulseSequencer.Proofs.Ppp.Parsing
import PulseSequencer.Proofs.Ppp.Printing

/-
# PulseSequencer.Proofs.Ppp.Values -- declared values on several lines

The value of a declaration can go on over several lines inside brackets, and it does so
in the assembly text too.  There the assembler reads the first line alone, whose
brackets stay open, so it accepts no such text: `breaks_of_cell`, `breaks_of_constant`.
-/

namespace PulseSequencer.Ppp

open PulseSequencer.Assembler
open PulseSequencer.Formula (Enclosed)
open PulseSequencer.Text (withoutReturn trim trimLeft trimRight isBlank)

set_option autoImplicit false

/-! ## Line feeds inside brackets -/

/-- Read from some nesting on, a text has line feeds inside brackets only, up to the
first number sign outside of quotes. -/
def Sheltered (n : Nesting) : List Char → Prop
  | [] => True
  | c :: rest =>
      c = '#' ∧ n.quote = none ∨
        (c = '\n' → 0 < n.depth ∧ n.quote = none) ∧ Sheltered (n.step c) rest

section Sheltered

variable {depth : Int} {n : Nesting} {a b : List Char}

theorem sheltered_cons {c : Char} (feed : c = '\n' → 0 < n.depth ∧ n.quote = none)
    (onward : Sheltered (n.step c) a) : Sheltered n (c :: a) :=
  .inr ⟨feed, onward⟩

/-- Inside quotes there is no line feed. -/
theorem sheltered_inside {quote : Char} (absent : quote ∉ a) (one : '\n' ∉ a)
    (line : quote ≠ '\n') (onward : Sheltered ⟨depth, none⟩ b) :
    Sheltered ⟨depth, some quote⟩ (a ++ quote :: b) := by
  induction a with
  | nil =>
      refine sheltered_cons (fun feed => absurd feed line) ?_
      simpa [Nesting.step] using onward
  | cons c rest ih =>
      have differs : c ≠ quote := fun same => absent (same ▸ List.mem_cons_self ..)
      refine sheltered_cons (fun feed => absurd (feed ▸ List.mem_cons_self ..) one) ?_
      simp only [Nesting.step, differs, if_false]
      exact ih (fun there => absent (List.mem_cons_of_mem _ there))
        fun there => one (List.mem_cons_of_mem _ there)

theorem blankContinuations_cons {c : Char}
    (apart : c = '\\' → ∀ rest, a ≠ '\n' :: rest ∧ a ≠ '\r' :: '\n' :: rest) :
    blankContinuations (c :: a) = c :: blankContinuations a := by
  rw [blankContinuations]
  · exact fun rest slash same => (apart slash rest).2 same
  · exact fun rest slash same => (apart slash rest).1 same

theorem blankContinuations_other {c : Char} (other : c ≠ '\\') :
    blankContinuations (c :: a) = c :: blankContinuations a :=
  blankContinuations_cons fun slash => absurd slash other

/-- Without a line feed nothing in a text is taken for a continued line. -/
theorem blankContinuations_text {quote : Char} (opens : quote = '"' ∨ quote = '\'')
    (one : '\n' ∉ a) :
    blankContinuations (a ++ quote :: b) = a ++ quote :: blankContinuations b := by
  induction a with
  | nil =>
      refine blankContinuations_cons fun slash => ?_
      subst slash
      exact absurd opens (by decide)
  | cons c rest ih =>
      have one' : '\n' ∉ rest := fun there => one (List.mem_cons_of_mem _ there)
      rw [List.cons_append, blankContinuations_cons, ih one', List.cons_append]
      intro _ more
      cases rest with
      | nil =>
          constructor <;> (intro same; obtain ⟨rfl, _⟩ := List.cons.inj same; revert opens; decide)
      | cons d others =>
          refine ⟨fun same => ?_, fun same => ?_⟩
          · exact one' ((List.cons.inj same).1 ▸ List.mem_cons_self ..)
          · have behind := (List.cons.inj same).2
            cases others with
            | nil =>
                obtain ⟨rfl, _⟩ := List.cons.inj behind
                revert opens
                decide
            | cons e others =>
                exact one'
                  ((List.cons.inj behind).1 ▸ List.mem_cons_of_mem _ (List.mem_cons_self ..))

theorem step_opening {c : Char} (opens : isOpening c = true) :
    Nesting.step ⟨depth, none⟩ c = ⟨depth + 1, none⟩ := by
  simp only [isOpening, Bool.or_eq_true, beq_iff_eq] at opens
  rcases opens with (rfl | rfl) | rfl <;> rfl

theorem step_closing {c : Char} (closes : isClosing c = true) :
    Nesting.step ⟨depth, none⟩ c = ⟨depth - 1, none⟩ := by
  simp only [isClosing, Bool.or_eq_true, beq_iff_eq] at closes
  rcases closes with (rfl | rfl) | rfl <;> rfl

theorem sheltered_space (onward : Sheltered ⟨depth, none⟩ a) :
    Sheltered ⟨depth, none⟩ (' ' :: a) :=
  sheltered_cons (fun feed => absurd feed (by decide)) onward

/-- **A piece of a logical line shelters its line feeds.** -/
theorem sheltered_of_body {first last : Nat} {body : List Char} (is : Body first body last) :
    Sheltered ⟨first, none⟩ (blankContinuations body) := by
  induction is with
  | nil => exact trivial
  | comment =>
      rw [blankContinuations_other (by decide)]
      exact .inl ⟨rfl, rfl⟩
  | @plain depth _ c rest plain _ ih =>
      have noMark : ∀ m ∈ lineMarks, c ≠ m := fun m mark same => plain (same ▸ mark)
      rw [blankContinuations_other (noMark _ (by decide))]
      refine sheltered_cons (fun feed => absurd feed (noMark _ (by decide))) ?_
      have stays : Nesting.step ⟨depth, none⟩ c = ⟨depth, none⟩ := by
        simp only [lineMarks, List.mem_cons, List.not_mem_nil, or_false, not_or] at plain
        simp [Nesting.step, plain]
      rwa [stays]
  | newline inside _ ih =>
      rw [blankContinuations_other (by decide)]
      exact sheltered_cons (fun _ => ⟨Int.natCast_pos.2 inside, rfl⟩) ih
  | continued _ ih =>
      exact sheltered_space (sheltered_space ih)
  | continuedReturn _ ih =>
      exact sheltered_space (sheltered_space (sheltered_space ih))
  | @text depth _ quote body rest opens absent one _ ih =>
      have line : quote ≠ '\n' := by rcases opens with rfl | rfl <;> decide
      have other : quote ≠ '\\' := by rcases opens with rfl | rfl <;> decide
      rw [blankContinuations_other other, blankContinuations_text opens one]
      refine sheltered_cons (fun feed => absurd feed line) ?_
      have quoted : Nesting.step ⟨depth, none⟩ quote = ⟨depth, some quote⟩ := by
        simp [Nesting.step, opens]
      rw [quoted]
      exact sheltered_inside absent one line ih
  | @opens depth _ c rest opens _ ih =>
      rw [blankContinuations_other fun slash => (by subst slash; cases opens)]
      refine sheltered_cons (fun feed => (by subst feed; cases opens)) ?_
      rw [step_opening opens]
      exact ih
  | @closes depth _ c rest closes _ ih =>
      rw [blankContinuations_other fun slash => (by subst slash; cases closes)]
      refine sheltered_cons (fun feed => (by subst feed; cases closes)) ?_
      rw [step_closing closes, show ((depth + 1 : Nat) : Int) - 1 = depth by omega]
      exact ih

/-- The nesting behind a text. -/
def nestingAfter (n : Nesting) (cs : List Char) : Nesting := cs.foldl Nesting.step n

theorem nestingAfter_append (cs ds : List Char) :
    nestingAfter n (cs ++ ds) = nestingAfter (nestingAfter n cs) ds :=
  List.foldl_append ..

theorem enclosed_append (enclosed : Enclosed n (a ++ b)) : Enclosed (nestingAfter n a) b := by
  induction a generalizing n with
  | nil => exact enclosed
  | cons c rest ih => exact ih enclosed.2.2

theorem nestingAfter_of_enclosed (enclosed : Enclosed n a) : nestingAfter n a = {} := by
  have closed := enclosed_append (b := []) ((List.append_nil a).symm ▸ enclosed)
  exact closed

/-- A line feed in the text of a formula stands inside brackets. -/
theorem open_of_newline (sheltered : Sheltered n (a ++ '\n' :: b))
    (enclosed : Enclosed n (a ++ '\n' :: b)) : 0 < (nestingAfter n a).depth := by
  induction a generalizing n with
  | nil =>
      rcases sheltered with ⟨sign, _⟩ | ⟨feed, _⟩
      · exact absurd sign (by decide)
      · exact (feed rfl).1
  | cons c rest ih =>
      rcases sheltered with ⟨sign, quote⟩ | ⟨_, onward⟩
      · exact absurd quote (enclosed.2.1 sign)
      · exact ih onward enclosed.2.2

end Sheltered

/-! ## What the assembler sees of the first line -/

section Seen

variable {n : Nesting} {a b text : List Char}

/-- Only quotes are open as quotes. -/
def Sane (n : Nesting) : Prop := ∀ quote, n.quote = some quote → quote = '"' ∨ quote = '\''

theorem sane_nestingAfter (sane : Sane n) (cs : List Char) : Sane (nestingAfter n cs) := by
  induction cs generalizing n with
  | nil => exact sane
  | cons c rest ih =>
      refine ih fun quote opened => ?_
      unfold Nesting.step at opened
      split at opened
      · rename_i before known
        split at opened
        · cases opened
        · exact sane quote opened
      · rename_i none'
        split at opened
        · rename_i opens
          obtain rfl := Option.some.inj opened
          exact opens
        · split at opened
          · exact absurd (none'.symm.trans opened) (Option.some_ne_none quote).symm
          · split at opened
            · exact absurd (none'.symm.trans opened) (Option.some_ne_none quote).symm
            · exact absurd (none'.symm.trans opened) (Option.some_ne_none quote).symm

/-- Blanks open and close nothing. -/
theorem nestingAfter_blanks (sane : Sane n) {blanks : List Char}
    (blank : ∀ c ∈ blanks, isBlank c = true) : nestingAfter n blanks = n := by
  induction blanks with
  | nil => rfl
  | cons c rest ih =>
      have plain : c ∉ Formula.nestingMarks :=
        Formula.plain_of (p := isBlank) (by decide) (blank c (List.mem_cons_self ..))
      have stays : n.step c = n := by
        obtain ⟨depth, quote⟩ := n
        cases quote with
        | none => exact Formula.step_plain plain
        | some quote =>
            have differs : c ≠ quote := by
              rcases sane quote rfl with rfl | rfl
              · exact Formula.ne_of_plain plain (by decide)
              · exact Formula.ne_of_plain plain (by decide)
            simp [Nesting.step, differs]
      show nestingAfter (n.step c) rest = n
      rw [stays]
      exact ih fun d there => blank d (List.mem_cons_of_mem _ there)

theorem sane_empty : Sane {} := fun _ opened => by cases opened

theorem nestingAfter_trimRight (cs : List Char) :
    nestingAfter {} (trimRight cs) = nestingAfter {} cs := by
  obtain ⟨blanks, whole, blank⟩ := Text.trimRight_prefix cs
  have behind : nestingAfter {} (trimRight cs ++ blanks) = nestingAfter {} (trimRight cs) := by
    rw [nestingAfter_append, nestingAfter_blanks (sane_nestingAfter sane_empty _) blank]
  rw [← behind, ← whole]

theorem nestingAfter_trim (cs : List Char) : nestingAfter {} (trim cs) = nestingAfter {} cs := by
  obtain ⟨blanks, whole, blank⟩ := Text.trimLeft_suffix cs
  have before : nestingAfter {} (blanks ++ trimLeft cs) = nestingAfter {} (trimLeft cs) := by
    rw [nestingAfter_append, nestingAfter_blanks sane_empty blank]
  rw [trim, nestingAfter_trimRight, ← before, ← whole]

theorem withoutReturn_prefix (line : List Char) :
    ∃ blanks, line = withoutReturn line ++ blanks ∧ ∀ c ∈ blanks, isBlank c = true := by
  unfold withoutReturn
  split
  · rename_i last
    obtain ⟨front, rfl⟩ := List.getLast?_eq_some_iff.1 last
    refine ⟨['\r'], by rw [List.dropLast_concat], fun c there => ?_⟩
    rw [List.mem_singleton.1 there]
    decide
  · exact ⟨[], (List.append_nil line).symm, fun c there => absurd there List.not_mem_nil⟩

theorem seen_prefix (cs : List Char) : ∃ more, cs = seen cs ++ more := by
  obtain ⟨blanks, whole, _⟩ := withoutReturn_prefix cs
  obtain ⟨blanks', trimmed, _⟩ :=
    Text.trimRight_prefix (SourceSet.withoutComment (withoutReturn cs))
  have cut : withoutReturn cs = SourceSet.withoutComment (withoutReturn cs) ++
      (withoutReturn cs).dropWhile fun c => decide (c ≠ '#') :=
    (List.takeWhile_append_dropWhile ..).symm
  refine ⟨blanks' ++ (withoutReturn cs).dropWhile (fun c => decide (c ≠ '#')) ++ blanks, ?_⟩
  rw [seen, ← List.append_assoc, ← List.append_assoc, ← trimmed, ← cut, ← whole]

theorem mem_withoutReturn {c : Char} (there : c ∈ a) (other : c ≠ '\r') : c ∈ withoutReturn a := by
  unfold withoutReturn
  split
  · rename_i last
    obtain ⟨front, rfl⟩ := List.getLast?_eq_some_iff.1 last
    rw [List.dropLast_concat]
    exact (List.mem_append.1 there).resolve_right fun here => other (List.mem_singleton.1 here)
  · exact there

/-- **A number sign leaves open what is seen before it**, which ends inside quotes. -/
theorem open_of_sign (enclosed : Enclosed {} (a ++ b)) (sign : '#' ∈ a) :
    nestingAfter {} (seen a) ≠ {} := by
  obtain ⟨blanks, whole, _⟩ := withoutReturn_prefix a
  obtain ⟨before, behind, cut, free⟩ :=
    List.eq_append_cons_of_mem (mem_withoutReturn sign (by decide))
  rw [seen, nestingAfter_trimRight, cut, withoutComment_append free, SourceSet.withoutComment,
    List.takeWhile_cons_of_neg (by decide), List.append_nil]
  intro closed
  rw [whole, cut, List.append_assoc, List.append_assoc] at enclosed
  have quoted := (enclosed_append enclosed).2.1 rfl
  rw [closed] at quoted
  exact quoted rfl

/-- **The first line of a value on several lines stays open.** -/
theorem open_of_seen (sheltered : Sheltered {} (a ++ '\n' :: b))
    (enclosed : Enclosed {} (a ++ '\n' :: b)) : nestingAfter {} (seen a) ≠ {} := by
  by_cases sign : '#' ∈ a
  · exact open_of_sign enclosed sign
  · obtain ⟨blanks, whole, blank⟩ := withoutReturn_prefix a
    have unsigned : '#' ∉ withoutReturn a := fun there =>
      sign (whole ▸ List.mem_append_left _ there)
    have uncommented := withoutComment_append unsigned []
    rw [List.append_nil] at uncommented
    rw [seen, uncommented, SourceSet.withoutComment, List.takeWhile_nil, List.append_nil,
      nestingAfter_trimRight]
    intro closed
    have opened := open_of_newline sheltered enclosed
    rw [whole, nestingAfter_append, closed, nestingAfter_blanks sane_empty blank] at opened
    exact absurd opened (by decide)

/-- An open text is no formula. -/
theorem not_parsed {d : Draft} {v : Value} (opened : nestingAfter {} text ≠ {}) :
    ¬ d.evaluate (String.ofList text) = .ok v := by
  intro evaluated
  unfold Draft.evaluate Formula.Evaluator.evaluate at evaluated
  cases outcome : Formula.parse (String.ofList text) with
  | ok f =>
      have enclosed := Formula.enclosed_of_parse outcome
      rw [String.toList_ofList] at enclosed
      exact opened (nestingAfter_of_enclosed enclosed)
  | error e =>
      rw [outcome] at evaluated
      cases evaluated

/-- What is not split is the first field. -/
theorem fieldAt?_of_open (whole : splitFields {} text = [text])
    (opened : nestingAfter {} text ≠ {}) :
    fieldAt? (fields text) 0 = some (String.ofList (trim text)) := by
  have some' : trim text ≠ [] := by
    intro none'
    rw [← nestingAfter_trim, none'] at opened
    exact opened rfl
  rw [fields, whole, List.map_singleton]
  split
  · rename_i none'
    exact absurd (List.cons.inj none').1 some'
  · rw [fieldAt?]
    split
    · rename_i none'
      exact absurd (Option.some.inj none') some'
    · rename_i absent
      cases absent
    · rename_i found
      rw [← Option.some.inj found]

end Seen

/-! ## Declarations on several lines -/

/-- A line whose text goes on over several lines, one of which the assembler refuses. -/
def AssemblyLine.Breaks (line : AssemblyLine) : Prop :=
  ∃ head : AssemblyLine, head.Neat ∧
    head.text.toList ∈ Text.splitAll (· = '\n') line.text.toList ∧ ∀ d d', ¬ Draft.Reads d head d'

theorem joinFields_toList (first : String) (rest : List String) :
    (joinFields (first :: rest)).toList = first.toList ++
      (rest.reverse.dropWhile (·.isEmpty)).reverse.flatMap fun f => ',' :: ' ' :: f.toList :=
  intercalate_toList ..

/-- Only the value of a declaration can have a line feed in it. -/
theorem mem_value_of_mem_joinFields {first : String} {rest : List String}
    (clean : ∀ f ∈ rest, '\n' ∉ f.toList) (feed : '\n' ∈ (joinFields (first :: rest)).toList) :
    '\n' ∈ first.toList := by
  rw [joinFields_toList, List.mem_append] at feed
  rcases feed with here | later
  · exact here
  · obtain ⟨f, kept, there⟩ := List.mem_flatMap.1 later
    have within : f ∈ rest := List.mem_reverse.1
      ((List.dropWhile_sublist _).subset (List.mem_reverse.1 kept))
    rcases List.mem_cons.1 there with comma | there
    · exact absurd comma (by decide)
    rcases List.mem_cons.1 there with blank | there
    · exact absurd blank (by decide)
    · exact absurd there (clean f within)

/-- A cell whose fields have no line feed is declared on one line. -/
theorem cell_one_line {name first : String} {rest : List String} (isName : IsName name.toList)
    (clean : ∀ f ∈ first :: rest, '\n' ∉ f.toList) :
    '\n' ∉ (AssemblyLine.cell name (first :: rest)).text.toList := by
  obtain ⟨value, others⟩ := List.forall_mem_cons.1 clean
  have noFeed : '\n' ∉ name.toList := isName.not_mem (by decide)
  have fields : '\n' ∉ (joinFields (first :: rest)).toList :=
    fun feed => value (mem_value_of_mem_joinFields others feed)
  rw [cell_toList]
  simp [noFeed, fields]

/-- The first line of a text. -/
theorem mem_splitAll_of_append {a b text : List Char} (shape : text = a ++ '\n' :: b)
    (first : '\n' ∉ a) : a ∈ Text.splitAll (· = '\n') text := by
  have whole : Text.splitAll (· = '\n') a = [a] :=
    Text.splitAll_of_free fun c there => decide_eq_false fun same => first (same ▸ there)
  rw [shape, Text.splitAll_cut a b (by decide), whole]
  exact List.mem_cons_self ..

section Breaks

variable {name : String} {v : SourceFormula}

/-- The first line of a value, and what it leaves open. -/
theorem SourceFormula.Wellformed.first_line (wellformed : v.Wellformed)
    (feed : '\n' ∈ v.text.toList) :
    ∃ a b : List Char, v.text.toList = a ++ '\n' :: b ∧ '\n' ∉ a ∧
      splitFields {} (seen a) = [seen a] ∧ nestingAfter {} (seen a) ≠ {} := by
  obtain ⟨a, b, shape, first⟩ := List.eq_append_cons_of_mem feed
  obtain ⟨body, is, text⟩ := wellformed.body
  have enclosed := Formula.enclosed_of_parse wellformed.parsed
  have sheltered : Sheltered {} v.text.toList := by
    rw [text, String.toList_ofList]
    exact sheltered_of_body is
  rw [shape] at enclosed sheltered
  obtain ⟨more, prefix'⟩ := seen_prefix a
  refine ⟨a, b, shape, first, ?_, open_of_seen sheltered enclosed⟩
  refine splitFields_of_enclosed (b := more ++ '\n' :: b) ?_
  rwa [← List.append_assoc, ← prefix']

/-- **A variable whose value takes several lines is refused.** -/
theorem breaks_of_cell {others : List String} (isName : IsName name.toList)
    (wellformed : v.Wellformed) (clean : ∀ f ∈ others, '\n' ∉ f.toList)
    (feed : '\n' ∈ (AssemblyLine.cell name (v.text :: others)).text.toList) :
    (AssemblyLine.cell name (v.text :: others)).Breaks := by
  have noFeed : '\n' ∉ name.toList := isName.not_mem (by decide)
  have inFields : '\n' ∈ (joinFields (v.text :: others)).toList := by
    rw [cell_toList] at feed
    simpa [noFeed] using feed
  obtain ⟨a, b, shape, first, whole, opened⟩ :=
    wellformed.first_line (mem_value_of_mem_joinFields clean inFields)
  have only : (joinFields [String.ofList a]).toList = a := by
    rw [joinFields_toList]
    simp
  refine ⟨.cell name [String.ofList a], isName, ?_, fun d d' reads => ?_⟩
  · refine mem_splitAll_of_append (b := b ++ (others.reverse.dropWhile (·.isEmpty)).reverse.flatMap
      fun f => ',' :: ' ' :: f.toList) ?_ ?_
    · rw [cell_toList, cell_toList, only, joinFields_toList, shape]
      simp [List.append_assoc]
    · rw [cell_toList, only]
      simp [noFeed, first]
  · obtain ⟨_, _, variable', comment, read, _⟩ := reads
    rw [only] at read
    unfold Draft.readVariable at read
    obtain ⟨value, evaluated, _⟩ := bind_eq_ok.1 read
    rw [fieldAt?_of_open whole opened] at evaluated
    rw [← nestingAfter_trim] at opened
    exact not_parsed opened evaluated

/-- **A constant whose value takes several lines is refused.** -/
theorem breaks_of_constant (isName : IsName name.toList) (wellformed : v.Wellformed)
    (feed : '\n' ∈ (AssemblyLine.constant name v.text).text.toList) :
    (AssemblyLine.constant name v.text).Breaks := by
  have noFeed : '\n' ∉ name.toList := isName.not_mem (by decide)
  have inValue : '\n' ∈ v.text.toList := by
    rw [constant_toList] at feed
    simpa [noFeed] using feed
  obtain ⟨a, b, shape, first, _, opened⟩ := wellformed.first_line inValue
  refine ⟨.constant name (String.ofList a), isName, ?_, fun d d' reads => ?_⟩
  · refine mem_splitAll_of_append (b := b) ?_ ?_
    · rw [constant_toList, constant_toList, String.toList_ofList, shape]
      simp [List.append_assoc]
    · rw [constant_toList, String.toList_ofList]
      simp [noFeed, first]
  · obtain ⟨value, evaluated, _⟩ := reads
    rw [String.toList_ofList] at evaluated
    exact not_parsed opened evaluated

end Breaks

end PulseSequencer.Ppp
