import PulseSequencer.Program.Source

/-
# PulseSequencer.Proofs.Text.Lines -- lines and words of printed text

What was printed line by line is read line by line: `lines_printed`.  The words of a
line are found again where the character behind them is: `splitFirst?_append`,
`trim_word` and `trimRight_blank`.
-/

namespace PulseSequencer.Text

set_option autoImplicit false

/-! ## Pieces -/

section Pieces

variable {cut : Char → Bool} {a b : List Char} {c : Char}

theorem splitAll_ne_nil (cut : Char → Bool) (cs : List Char) : splitAll cut cs ≠ [] := by
  cases cs with
  | nil => exact List.cons_ne_nil _ _
  | cons x rest =>
      rw [splitAll]
      split
      · exact List.cons_ne_nil _ _
      · split <;> exact List.cons_ne_nil _ _

/-- A cut parts the pieces in front of it from those behind. -/
theorem splitAll_cut (a b : List Char) (here : cut c = true) :
    splitAll cut (a ++ c :: b) = splitAll cut a ++ splitAll cut b := by
  induction a with
  | nil =>
      rw [List.nil_append, splitAll.eq_2, if_pos here]
      rfl
  | cons x rest ih =>
      rw [List.cons_append, splitAll, splitAll, ih]
      split
      · rfl
      · cases pieces : splitAll cut rest with
        | nil => exact absurd pieces (splitAll_ne_nil cut rest)
        | cons piece others => rfl

theorem splitAll_of_free (free : ∀ x ∈ a, cut x = false) : splitAll cut a = [a] := by
  induction a with
  | nil => rfl
  | cons x rest ih =>
      have free' : cut x = false := free x (List.mem_cons_self ..)
      rw [splitAll, free', if_neg Bool.false_ne_true,
        ih fun y there => free y (List.mem_cons_of_mem _ there)]

theorem splitFirst?_append (free : ∀ x ∈ a, cut x = false) (here : cut c = true) :
    splitFirst? cut (a ++ c :: b) = some (a, b) := by
  induction a with
  | nil => rw [List.nil_append, splitFirst?, if_pos here]
  | cons x rest ih =>
      have free' : cut x = false := free x (List.mem_cons_self ..)
      rw [List.cons_append, splitFirst?, free', if_neg Bool.false_ne_true,
        ih fun y there => free y (List.mem_cons_of_mem _ there)]
      rfl

theorem splitFirst?_none (free : ∀ x ∈ a, cut x = false) : splitFirst? cut a = none := by
  induction a with
  | nil => rfl
  | cons x rest ih =>
      have free' : cut x = false := free x (List.mem_cons_self ..)
      rw [splitFirst?, free', if_neg Bool.false_ne_true,
        ih fun y there => free y (List.mem_cons_of_mem _ there)]
      rfl

end Pieces

theorem splitFirst?_eq_some {cut : Char → Bool} {cs before after : List Char}
    (found : splitFirst? cut cs = some (before, after)) :
    ∃ d, cs = before ++ d :: after ∧ cut d = true ∧ ∀ c ∈ before, cut c = false := by
  induction cs generalizing before with
  | nil => cases found
  | cons c more ih =>
      rw [splitFirst?] at found
      split at found
      · rename_i here
        obtain ⟨rfl, rfl⟩ := Prod.mk.inj (Option.some.inj found)
        exact ⟨c, rfl, here, fun _ there => absurd there List.not_mem_nil⟩
      · rename_i passed
        obtain ⟨⟨front, back⟩, found', same⟩ := Option.map_eq_some_iff.1 found
        obtain ⟨rfl, rfl⟩ := Prod.mk.inj same
        obtain ⟨d, shape, here, free⟩ := ih found'
        refine ⟨d, by rw [shape]; rfl, here, fun x there => ?_⟩
        rcases List.mem_cons.1 there with rfl | there
        · exact Bool.eq_false_iff.2 passed
        · exact free x there

theorem after?_eq_some {head cs rest : List Char} (found : after? head cs = some rest) :
    cs = head ++ rest := by
  induction head generalizing cs with
  | nil => exact Option.some.inj found
  | cons h others ih =>
      cases cs with
      | nil => exact absurd found.symm (Option.some_ne_none rest)
      | cons c cs =>
          rw [after?] at found
          split at found
          · rename_i same
            rw [same, ih found]
            rfl
          · exact absurd found.symm (Option.some_ne_none rest)

theorem mem_takeWhile {α : Type} {p : α → Bool} {xs : List α} {x : α}
    (there : x ∈ xs.takeWhile p) : p x = true :=
  List.all_eq_true.1 (List.all_takeWhile (p := p) (l := xs)) x there

theorem take_takeWhile {α : Type} (p : α → Bool) (xs : List α) :
    xs.take (xs.takeWhile p).length = xs.takeWhile p :=
  (List.prefix_iff_eq_take.1 (List.takeWhile_prefix p)).symm

/-- A run ends where its predicate does. -/
theorem takeWhile_append_stop {α : Type} {p : α → Bool} {xs more : List α}
    (all : ∀ x ∈ xs, p x = true) (stops : ∀ x, more.head? = some x → p x = false) :
    (xs ++ more).takeWhile p = xs := by
  rw [List.takeWhile_append_of_pos all]
  cases more with
  | nil => exact List.append_nil xs
  | cons x rest =>
      rw [List.takeWhile_cons_of_neg (by rw [stops x rfl]; exact Bool.false_ne_true),
        List.append_nil]

/-- What stands in front of the first cut is what runs up to it. -/
theorem takeWhile_eq_splitFirst? (cut : Char → Bool) (cs : List Char) :
    cs.takeWhile (fun c => !cut c) = ((splitFirst? cut cs).map Prod.fst).getD cs := by
  induction cs with
  | nil => rfl
  | cons c rest ih =>
      cases here : cut c with
      | true => simp [splitFirst?, here]
      | false =>
          simp only [splitFirst?, here, Bool.false_eq_true, if_false, List.takeWhile_cons,
            Bool.not_false, if_true, ih, Option.map_map, Function.comp_def]
          cases splitFirst? cut rest <;> rfl

/-! ## Lines -/

/-- A line without the carriage return at its end. -/
def withoutReturn (line : List Char) : List Char :=
  match line.getLast? with
  | some '\r' => line.dropLast
  | _ => line

theorem withoutReturn_append {a : List Char} (keeps : a.getLast? ≠ some '\r') (b : List Char) :
    withoutReturn (a ++ b) = a ++ withoutReturn b := by
  cases b with
  | nil =>
      rw [List.append_nil, withoutReturn]
      split
      · rename_i last
        exact absurd last keeps
      · exact (List.append_nil a).symm
  | cons c rest =>
      have last : (a ++ c :: rest).getLast? = (c :: rest).getLast? := by
        rw [List.getLast?_append, List.getLast?_cons, Option.some_or]
      rw [withoutReturn, withoutReturn, last]
      split
      · exact List.dropLast_append_of_ne_nil (List.cons_ne_nil c rest)
      · rfl

theorem withoutReturn_of_free {line : List Char} (free : '\r' ∉ line) :
    withoutReturn line = line := by
  unfold withoutReturn
  split
  · rename_i last
    exact absurd (List.mem_of_getLast? last) free
  · rfl

/-- A line feed ends the lines in front of it. -/
theorem lines_append (a b : List Char) :
    lines (a ++ '\n' :: b) = (splitAll (· = '\n') a).map withoutReturn ++ lines b := by
  rw [lines, lines, splitAll_cut a b (by decide)]
  rcases List.eq_nil_or_concat (splitAll (· = '\n') b) with none' | ⟨init, last, pieces⟩
  · exact absurd none' (splitAll_ne_nil _ b)
  · rw [List.concat_eq_append] at pieces
    simp only [pieces, ← List.append_assoc, List.dropLast_concat, List.getLast?_concat,
      List.map_append]
    cases last with
    | nil => rfl
    | cons c rest => exact List.append_assoc ..

/-- **The lines of a printed text are what was printed.** -/
theorem lines_printed {texts : List (List Char)} (free : ∀ t ∈ texts, '\n' ∉ t) :
    lines (texts.flatMap fun t => t ++ ['\n']) = texts.map withoutReturn := by
  induction texts with
  | nil => rfl
  | cons t rest ih =>
      have whole : splitAll (· = '\n') t = [t] :=
        splitAll_of_free fun c there => decide_eq_false fun same =>
          free t (List.mem_cons_self ..) (same ▸ there)
      rw [List.flatMap_cons, List.append_assoc, List.singleton_append, lines_append, whole,
        ih fun u there => free u (List.mem_cons_of_mem _ there)]
      rfl

/-- **Lines that are joined by line feeds are the lines of the text.** -/
theorem lines_intercalate {texts : List (List Char)} (some' : ∀ t ∈ texts, t ≠ [])
    (free : ∀ t ∈ texts, '\n' ∉ t) (whole : ∀ t ∈ texts, withoutReturn t = t) :
    lines (List.intercalate ['\n'] texts) = texts := by
  have one : ∀ t ∈ texts, splitAll (· = '\n') t = [t] := fun t there =>
    splitAll_of_free fun c inLine => decide_eq_false fun same => free t there (same ▸ inLine)
  induction texts with
  | nil => rfl
  | cons first rest ih =>
      obtain ⟨firstSome, restSome⟩ := List.forall_mem_cons.1 some'
      obtain ⟨_, restFree⟩ := List.forall_mem_cons.1 free
      obtain ⟨firstWhole, restWhole⟩ := List.forall_mem_cons.1 whole
      obtain ⟨firstOne, restOne⟩ := List.forall_mem_cons.1 one
      cases rest with
      | nil =>
          rw [List.intercalate_singleton, lines, firstOne]
          dsimp only [List.getLast?_singleton]
          split
          · rename_i none'
            cases none'
          · rename_i empty
            exact absurd (Option.some.inj empty) firstSome
          · rename_i last _ is
            rw [← Option.some.inj is]
            rfl
      | cons second others =>
          rw [List.intercalate_cons_cons, List.append_assoc, List.singleton_append, lines_append,
            firstOne, ih restSome restFree restWhole restOne, List.map_singleton, firstWhole]
          rfl

/-- What is printed in several lines is several lines. -/
theorem mem_lines_printed {texts : List (List Char)} {t piece : List Char} (there : t ∈ texts)
    (within : piece ∈ splitAll (· = '\n') t) :
    withoutReturn piece ∈ lines (texts.flatMap fun t => t ++ ['\n']) := by
  induction texts with
  | nil => exact absurd there List.not_mem_nil
  | cons first rest ih =>
      rw [List.flatMap_cons, List.append_assoc, List.singleton_append, lines_append,
        List.mem_append]
      rcases List.mem_cons.1 there with rfl | later
      · exact .inl (List.mem_map_of_mem within)
      · exact .inr (ih later)

/-! ## Blanks -/

/-- A text with no blank at either end. -/
structure Trimmed (cs : List Char) : Prop where
  first : ∀ c ∈ cs.head?, isBlank c = false
  last : ∀ c ∈ cs.getLast?, isBlank c = false

theorem Trimmed.trim_eq {cs : List Char} (trimmed : Trimmed cs) : trim cs = cs := by
  have stays : ∀ {ds : List Char}, (∀ c ∈ ds.head?, isBlank c = false) →
      ds.dropWhile isBlank = ds := by
    intro ds free
    cases ds with
    | nil => rfl
    | cons d rest => rw [List.dropWhile_cons, free d rfl, if_neg Bool.false_ne_true]
  rw [trim, trimLeft, stays trimmed.first, trimRight, stays, List.reverse_reverse]
  rw [List.head?_reverse]
  exact trimmed.last

/-- Without the blanks around it a text of no blanks stays as it is. -/
theorem trim_of_free {cs : List Char} (free : ∀ c ∈ cs, isBlank c = false) : trim cs = cs :=
  Trimmed.trim_eq ⟨fun c there => free c (List.mem_of_mem_head? there),
    fun c there => free c (List.mem_of_mem_getLast? there)⟩

theorem trimRight_of_free {cs : List Char} (free : ∀ c ∈ cs, isBlank c = false) :
    trimRight cs = cs := by
  cases cs with
  | nil => rfl
  | cons c rest =>
      have same := trim_of_free free
      rw [trim, trimLeft, List.dropWhile_cons, free c (List.mem_cons_self ..),
        if_neg Bool.false_ne_true] at same
      exact same

theorem trimRight_append {a b : List Char} (some' : trimRight b ≠ []) :
    trimRight (a ++ b) = a ++ trimRight b := by
  have left : b.reverse.dropWhile isBlank ≠ [] := fun none' => some' (by rw [trimRight, none']; rfl)
  rw [trimRight, List.reverse_append, List.dropWhile_append]
  split
  · rename_i empty
    exact absurd (List.isEmpty_iff.1 empty) left
  · rw [List.reverse_append, List.reverse_reverse]
    rfl

theorem trimRight_of_blank {a b : List Char} (none' : trimRight b = []) :
    trimRight (a ++ b) = trimRight a := by
  have gone : b.reverse.dropWhile isBlank = [] := List.reverse_eq_nil_iff.1 none'
  rw [trimRight, List.reverse_append, List.dropWhile_append, gone]
  rfl

theorem trimRight_idem (cs : List Char) : trimRight (trimRight cs) = trimRight cs := by
  rw [trimRight, trimRight, List.reverse_reverse]
  congr 1
  cases left : cs.reverse.dropWhile isBlank with
  | nil => rfl
  | cons c rest =>
      have stops := List.head_dropWhile_not isBlank (l := cs.reverse) (by rw [left]; simp)
      simp only [left, List.head_cons] at stops
      rw [List.dropWhile_cons, stops, if_neg Bool.false_ne_true]

/-- A blank at the front goes with the blanks behind it, or stays with what follows. -/
theorem trimRight_blank {c : Char} (blank : isBlank c = true) (cs : List Char) :
    trimRight (c :: cs) = if trimRight cs = [] then [] else c :: trimRight cs := by
  split
  · rename_i none'
    rw [← List.singleton_append, trimRight_of_blank none', trimRight]
    simp [blank]
  · rename_i some'
    rw [← List.singleton_append, trimRight_append some']
    rfl

/-- Behind a word without blanks only the rest is trimmed. -/
theorem trim_word {word rest : List Char} (some' : word ≠ [])
    (free : ∀ c ∈ word, isBlank c = false) : trim (word ++ rest) = word ++ trimRight rest := by
  cases word with
  | nil => exact absurd rfl some'
  | cons c others =>
      have stays : trimLeft (c :: others ++ rest) = c :: others ++ rest := by
        rw [trimLeft, List.cons_append, List.dropWhile_cons, free c (List.mem_cons_self ..),
          if_neg Bool.false_ne_true]
      rw [trim, stays]
      by_cases none' : trimRight rest = []
      · rw [trimRight_of_blank none', none', List.append_nil]
        exact trimRight_of_free free
      · exact trimRight_append none'

/-- Trimming takes blanks away, and nothing else. -/
theorem trimRight_prefix (cs : List Char) :
    ∃ blanks, cs = trimRight cs ++ blanks ∧ ∀ c ∈ blanks, isBlank c = true := by
  refine ⟨(cs.reverse.takeWhile isBlank).reverse, ?_, fun c there => ?_⟩
  · rw [trimRight, ← List.reverse_append, List.takeWhile_append_dropWhile, List.reverse_reverse]
  · exact List.all_eq_true.1 List.all_takeWhile c (List.mem_reverse.1 there)

theorem trimLeft_suffix (cs : List Char) :
    ∃ blanks, cs = blanks ++ trimLeft cs ∧ ∀ c ∈ blanks, isBlank c = true :=
  ⟨cs.takeWhile isBlank, (List.takeWhile_append_dropWhile ..).symm,
    fun c there => List.all_eq_true.1 List.all_takeWhile c there⟩

theorem not_isBlank_of_dropWhile {cs : List Char} {c : Char}
    (there : c ∈ (cs.dropWhile isBlank).head?) : isBlank c = false := by
  have stops := List.head?_dropWhile_not isBlank cs
  rw [Option.mem_def.1 there] at stops
  exact stops

theorem trimmed_trim (cs : List Char) : Trimmed (trim cs) where
  first c there := by
    obtain ⟨_, whole, _⟩ := trimRight_prefix (trimLeft cs)
    have starts : c ∈ (trimLeft cs).head? := by
      rw [whole, List.head?_append, ← trim, Option.mem_def.1 there]
      rfl
    exact not_isBlank_of_dropWhile starts
  last c there := by
    rw [trim, trimRight, List.getLast?_reverse] at there
    exact not_isBlank_of_dropWhile there

theorem mem_of_mem_trim {cs : List Char} {c : Char} (there : c ∈ trim cs) : c ∈ cs := by
  obtain ⟨_, whole, _⟩ := trimLeft_suffix cs
  obtain ⟨_, rest, _⟩ := trimRight_prefix (trimLeft cs)
  rw [whole, rest]
  exact List.mem_append_right _ (List.mem_append_left _ there)

end PulseSequencer.Text
