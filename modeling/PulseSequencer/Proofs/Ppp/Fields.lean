import PulseSequencer.Proofs.Ppp.Values

/-
# PulseSequencer.Proofs.Ppp.Fields -- the fields of a declaration are read back

A declaration is printed with its fields between commas.  If the first one is a text that
encloses its commas and the others are words, the assembler finds what was printed
(`Legible.fieldAt?`).
-/

namespace PulseSequencer.Ppp

open PulseSequencer.Assembler
open PulseSequencer.Formula (Enclosed)
open PulseSequencer.Text (withoutReturn trim trimRight isBlank)

set_option autoImplicit false

/-! ## What is seen of a text -/

section Seen

variable {text : List Char}

theorem trimRight_of_trim (trimmed : trim text = text) : trimRight text = text := by
  rw [← trimmed, trim, Text.trimRight_idem]

/-- A text that no blank ends has no carriage return at its end. -/
theorem withoutReturn_of_trimRight (ends : trimRight text = text) : withoutReturn text = text := by
  unfold withoutReturn
  split
  · rename_i last
    obtain ⟨front, rfl⟩ := List.getLast?_eq_some_iff.1 last
    rw [Text.trimRight_of_blank (by decide)] at ends
    obtain ⟨blanks, whole, _⟩ := Text.trimRight_prefix front
    have shorter := congrArg List.length (ends ▸ whole)
    simp at shorter
  · rfl

/-- A text without a number sign is seen as a whole if no blank ends it. -/
theorem seen_of_trimRight (ends : trimRight text = text) (unsigned : '#' ∉ text) :
    seen text = text := by
  have whole := withoutComment_append unsigned []
  rw [List.append_nil] at whole
  rw [seen, withoutReturn_of_trimRight ends, whole, SourceSet.withoutComment, List.takeWhile_nil,
    List.append_nil, ends]

/-- A piece that starts and ends with itself is not trimmed. -/
theorem Tight.trim (tight : Tight text) : Text.trim text = text := by
  obtain ⟨c, starts, solid, _⟩ := tight.first
  have left : Text.trimLeft text = text := by
    cases text with
    | nil => rfl
    | cons d rest =>
        obtain rfl := Option.some.inj starts
        rw [Text.trimLeft, List.dropWhile_cons_of_neg (by simp [solid])]
  have some' : text ≠ [] := by
    rintro rfl
    cases starts
  obtain ⟨front, last, rfl⟩ := (List.eq_nil_or_concat text).resolve_left some'
  rw [List.concat_eq_append] at *
  have free : isBlank last = false := tight.last last (by simp)
  have same : trimRight [last] = [last] :=
    Text.trimRight_of_free (List.forall_mem_singleton.2 free)
  rw [Text.trim, left, Text.trimRight_append (by rw [same]; exact List.cons_ne_nil _ _), same]

end Seen

/-! ## Fields -/

/-- Empty fields behind the others are no fields. -/
theorem fieldAt?_append_blank (fs : List (List Char)) {blanks : List (List Char)}
    (blank : ∀ f ∈ blanks, f = []) (i : Nat) : fieldAt? (fs ++ blanks) i = fieldAt? fs i := by
  by_cases inside : i < fs.length
  · rw [fieldAt?, fieldAt?, List.getElem?_append_left inside]
  · have absent : fieldAt? fs i = none := by
      rw [fieldAt?, List.getElem?_eq_none (Nat.le_of_not_lt inside)]
    rw [absent, fieldAt?, List.getElem?_append_right (Nat.le_of_not_lt inside)]
    cases found : blanks[i - fs.length]? with
    | none => rfl
    | some f => rw [blank f (List.mem_of_getElem? found)]

/-- The fields that are printed: all but the empty ones at the end. -/
def keptFields (rest : List String) : List String := (rest.reverse.dropWhile (·.isEmpty)).reverse

theorem joinFields_kept (first : String) (rest : List String) :
    (joinFields (first :: rest)).toList =
      first.toList ++ (keptFields rest).flatMap fun f => ',' :: ' ' :: f.toList :=
  joinFields_toList first rest

theorem exists_blank_fields (rest : List String) :
    ∃ blanks : List String, rest = keptFields rest ++ blanks ∧ ∀ f ∈ blanks, f.toList = [] := by
  refine ⟨(rest.reverse.takeWhile (·.isEmpty)).reverse, ?_, fun f there => ?_⟩
  · rw [keptFields, ← List.reverse_append, List.takeWhile_append_dropWhile, List.reverse_reverse]
  · have empty := Text.mem_takeWhile (List.mem_reverse.1 there)
    rw [String.toList_eq_nil_iff]
    simpa using empty

theorem getLast?_keptFields {rest : List String} {last : String}
    (found : (keptFields rest).getLast? = some last) : last.toList ≠ [] := by
  rw [keptFields, List.getLast?_reverse] at found
  have some' : rest.reverse.dropWhile (·.isEmpty) ≠ [] := by
    intro none'
    rw [none'] at found
    cases found
  have stops := List.head_dropWhile_not (·.isEmpty) (l := rest.reverse) some'
  rw [List.head?_eq_some_head some'] at found
  obtain rfl := Option.some.inj found
  intro empty
  rw [String.toList_eq_nil_iff] at empty
  rw [empty] at stops
  cases stops

/-- A first field that encloses its commas, and words behind it. -/
structure Legible (first : String) (rest : List String) : Prop where
  enclosed : Enclosed {} first.toList
  unsigned : '#' ∉ first.toList
  trimmed : trim first.toList = first.toList
  words : ∀ f ∈ rest, Solid f.toList

section Legible

variable {first : String} {rest : List String} (legible : Legible first rest)
include legible

theorem Legible.kept : ∀ f ∈ keptFields rest, Solid f.toList := by
  obtain ⟨blanks, shape, _⟩ := exists_blank_fields rest
  exact fun f there => legible.words f (shape ▸ List.mem_append_left blanks there)

/-- The printed fields are seen as a whole. -/
theorem Legible.seen : Ppp.seen (joinFields (first :: rest)).toList =
    (joinFields (first :: rest)).toList := by
  have kept := legible.kept
  refine seen_of_trimRight ?_ ?_
  · rw [joinFields_kept]
    rcases List.eq_nil_or_concat (keptFields rest) with none' | ⟨others, last, shape⟩
    · rw [none', List.flatMap_nil, List.append_nil, trimRight_of_trim legible.trimmed]
    · have some' : last.toList ≠ [] := getLast?_keptFields (by rw [shape]; simp)
      have same : trimRight last.toList = last.toList :=
        Text.trimRight_of_free (kept last (by rw [shape]; simp)).not_blank
      have cut : first.toList ++ (keptFields rest).flatMap (fun f => ',' :: ' ' :: f.toList) =
          (first.toList ++ others.flatMap (fun f => ',' :: ' ' :: f.toList) ++ [',', ' ']) ++
            last.toList := by
        rw [shape]
        simp
      rw [cut, Text.trimRight_append (by rwa [same]), same]
  · rw [joinFields_kept, List.mem_append, List.mem_flatMap]
    rintro (inFirst | ⟨f, there, sign⟩)
    · exact legible.unsigned inFirst
    · have plain := (kept f there).plain
      simp only [List.mem_cons] at sign
      rcases sign with comma | blank | inWord
      · exact absurd comma (by decide)
      · exact absurd blank (by decide)
      · exact plain '#' inWord (by decide)

/-- **The assembler finds the fields that were printed.** -/
theorem Legible.fieldAt? (i : Nat) :
    Assembler.fieldAt? (fields (Ppp.seen (joinFields (first :: rest)).toList)) i =
      Assembler.fieldAt? ((first :: rest).map String.toList) i := by
  obtain ⟨blanks, shape, blank⟩ := exists_blank_fields rest
  have pieces : (splitFields {} (joinFields (first :: rest)).toList).map trim =
      first.toList :: (keptFields rest).map String.toList := by
    rw [joinFields_kept, splitFields_words legible.enclosed legible.kept, legible.trimmed]
  have whole : Assembler.fieldAt? ((first :: rest).map String.toList) i =
      Assembler.fieldAt? (first.toList :: (keptFields rest).map String.toList) i := by
    have cut : (first :: rest).map String.toList =
        (first.toList :: (keptFields rest).map String.toList) ++ blanks.map String.toList := by
      rw [List.map_cons, List.cons_append, ← List.map_append, ← shape]
    rw [cut, fieldAt?_append_blank]
    exact List.forall_mem_map.2 blank
  rw [legible.seen, whole, fields, pieces]
  split
  · rename_i none'
    obtain ⟨empty, others⟩ := List.cons.inj none'
    rw [empty, others]
    rcases i with _ | i <;> rfl
  · rfl

end Legible

end PulseSequencer.Ppp
