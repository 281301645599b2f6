import PulseSequencer.Proofs.Ppp.Positions

/-
# PulseSequencer.Proofs.Ppp.Coverage -- what is not told of a source

The tokens of a source stand one behind the other (`ordered_of_scan`), so a byte that a turn of
the scanner takes belongs to a token only if the turn tells that token (`Scanned.uncovered`).  The
turns that take text without one pass blanks, comments and continuations.  But a line whose
blanks end at a carriage return counts as a blank line, whatever stands behind it:
`uncovered_iff_struck`.  Where carriage returns stand in front of line feeds only, nothing
else is passed (`passed_of_uncovered`).
-/

namespace PulseSequencer.Ppp

open PulseSequencer.Text (byteLength byteLength_append)

set_option autoImplicit false

/-! ## The order of tokens -/

/-- Tokens that stand one behind the other, between two bytes. -/
structure Ordered (first last : Nat) (ts : List Token) : Prop where
  le : first ≤ last
  apart : ts.Pairwise fun a b => a.stop ≤ b.start
  within : ∀ t ∈ ts, first ≤ t.start ∧ t.start ≤ t.stop ∧ t.stop ≤ last

section Ordered

variable {first middle last : Nat} {a b : List Token}

theorem Ordered.nil (le : first ≤ last) : Ordered first last [] where
  le := le
  apart := .nil
  within _ there := absurd there List.not_mem_nil

theorem Ordered.append (before : Ordered first middle a) (behind : Ordered middle last b) :
    Ordered first last (a ++ b) where
  le := Nat.le_trans before.le behind.le
  apart := by
    refine List.pairwise_append.2 ⟨before.apart, behind.apart, fun t here u there => ?_⟩
    have := before.within t here
    have := behind.within u there
    omega
  within t there := by
    have := before.le
    have := behind.le
    rcases List.mem_append.1 there with here | there
    · have := before.within t here
      omega
    · have := behind.within t there
      omega

/-- Tokens without a text, at a place. -/
theorem ordered_empty {c : Cursor} (empty : ∀ t ∈ a, ∃ kind, t = c.emptyToken kind) :
    Ordered c.offset c.offset a where
  le := Nat.le_refl _
  apart := by
    refine List.pairwise_iff_forall_sublist.2 fun {t u} sublist => ?_
    have here := sublist.subset (List.mem_cons_self ..)
    have there := sublist.subset (List.mem_cons_of_mem _ (List.mem_cons_self ..))
    obtain ⟨_, rfl⟩ := empty t here
    obtain ⟨_, rfl⟩ := empty u there
    exact Nat.le_refl _
  within t there := by
    obtain ⟨_, rfl⟩ := empty t there
    exact ⟨Nat.le_refl _, Nat.le_refl _, Nat.le_refl _⟩

end Ordered

section Turns

variable {s s' : LexState} {piece left : List Char} {tokens ts : List Token}

/-- The tokens of a turn stand in the text that it takes. -/
theorem Turn.ordered (turn : Turn s piece left tokens s') :
    Ordered s.cursor.offset s'.cursor.offset tokens := by
  have onward : s.cursor.offset ≤ s'.cursor.offset := by
    have := turn.offset
    omega
  cases turn with
  | level _ blanks _ _ changed =>
      have empty := ordered_empty fun t there => by
        obtain ⟨kind, _, same⟩ := (levelChange_of_ok changed).places t there
        exact ⟨kind, same⟩
      exact (Ordered.nil onward).append empty
  | lineEnd =>
      have empty : Ordered s.cursor.offset s.cursor.offset [s.cursor.emptyToken .newline] :=
        ordered_empty fun t there => ⟨_, List.mem_singleton.1 there⟩
      exact empty.append (.nil onward)
  | token =>
      refine ⟨onward, List.pairwise_singleton _ _, fun t there => ?_⟩
      obtain rfl := List.mem_singleton.1 there
      exact ⟨Nat.le_refl _, Nat.le_add_right _ _, Nat.le_refl _⟩
  | _ => exact .nil onward

/-- **The tokens of a text stand in it, one behind the other.** -/
theorem ordered_of_scan {cs : List Char} (scanned : scan s cs = .ok ts) :
    Ordered s.cursor.offset (s.cursor.offset + byteLength cs) ts := by
  refine scan_induction (motive := fun s cs ts =>
    Ordered s.cursor.offset (s.cursor.offset + byteLength cs) ts) ?_ ?_ scanned
  · intro s ts closed
    refine ordered_empty fun t there => ?_
    obtain ⟨kind, _, _, same⟩ := places_of_finish closed t there
    exact ⟨kind, same⟩
  · intro s s' piece left tokens more turn _ ih
    rw [byteLength_append, ← Nat.add_assoc, ← turn.offset]
    exact turn.ordered.append ih

end Turns

/-! ## Bytes without a token -/

/-- Whether a byte belongs to no token. -/
def Uncovered (ts : List Token) (i : Nat) : Prop := ∀ t ∈ ts, ¬(t.start ≤ i ∧ i < t.stop)

theorem uncovered_nil (i : Nat) : Uncovered [] i := by
  intro t none'
  cases none'

section Runs

variable {source read piece left before behind : List Char} {told tokens ts : List Token}
  {s s' : LexState} {c : Char}

theorem Scanned.ordered (reached : Scanned source read told s left) :
    Ordered 0 s.cursor.offset told := by
  induction reached with
  | start => exact .nil (Nat.le_refl 0)
  | turn _ turn ih => exact ih.append turn.ordered

/-- **A byte that a turn takes belongs to no token but those of the turn.** -/
theorem Scanned.uncovered (scanned : scan {} source = .ok ts)
    (reached : Scanned source read told s (piece ++ left)) (turn : Turn s piece left tokens s')
    {i : Nat} (le : byteLength read ≤ i) (lt : i < byteLength (read ++ piece)) :
    Uncovered ts i ↔ Uncovered tokens i := by
  have place := reached.offset
  have place' := (reached.turn turn).offset
  obtain ⟨more, further, rfl⟩ := (reached.turn turn).more scanned
  constructor
  · intro free t there
    exact free t (by simp [there])
  · intro free t there
    rw [List.mem_append, List.mem_append] at there
    rcases there with (earlier | here) | later
    · have := reached.ordered.within t earlier
      omega
    · exact free t here
    · have := (ordered_of_scan further).within t later
      omega

/-- Every character is taken by some turn. -/
theorem exists_turn_at (scanned : scan {} source = .ok ts)
    (shape : source = before ++ c :: behind) :
    ∃ read told s a b left tokens s', Scanned source read told s (a ++ c :: b ++ left) ∧
      Turn s (a ++ c :: b) left tokens s' ∧ before = read ++ a := by
  have taken : ∀ {read left told s}, Scanned source read told s left →
      ∀ {before behind}, read = before ++ c :: behind →
        ∃ read told s a b left tokens s', Scanned source read told s (a ++ c :: b ++ left) ∧
          Turn s (a ++ c :: b) left tokens s' ∧ before = read ++ a := by
    intro read left told s reached
    induction reached with
    | start =>
        intro before behind shape
        simp at shape
    | @turn read piece left told tokens s s' reached turn ih =>
        intro before behind shape
        rcases append_eq_append_cons shape with ⟨m, whole⟩ | ⟨a, rfl, rfl⟩
        · exact ih whole
        · exact ⟨read, told, s, a, behind, left, tokens, s', reached, turn, rfl⟩
  obtain ⟨told, s, closing, reached, _⟩ := exists_end scanned
  exact taken reached shape

end Runs

/-! ## What is passed -/

/-- A character that stands for nothing by itself, between two texts: a blank, a part of a
comment, or the backslash of a continuation. -/
inductive Passed (ts : List Token) (before : List Char) (c : Char) (behind : List Char) : Prop
  | blank (is : c = ' ' ∨ c = '\t' ∨ c = '\r' ∨ c = '\n') : Passed ts before c behind
  | comment {a line : List Char} (shape : before ++ [c] = a ++ '#' :: line) (one : '\n' ∉ line)
      (sign : Uncovered ts (byteLength a)) : Passed ts before c behind
  | continuation {slash rest : List Char} (is : slash ∈ continuations)
      (shape : c :: behind = slash ++ rest) : Passed ts before c behind

/-- The place behind a carriage return that ends the blanks of a line, on the same line. -/
def Struck (source before : List Char) : Prop :=
  ∃ read told s left indent line, Scanned source read told s left ∧ s.AtLine ∧
    (∀ c ∈ indent, isIndent c = true) ∧ '\n' ∉ line ∧ before = read ++ indent ++ '\r' :: line

section Passed

variable {source read line left a b behind : List Char} {told tokens ts : List Token}
  {s s' : LexState} {c : Char}

theorem passed_of_isIndent {before : List Char} (blank : isIndent c = true) :
    Passed ts before c behind := by
  simp only [isIndent, Bool.or_eq_true, beq_iff_eq] at blank
  rcases blank with space | tab
  · exact .blank (.inl space)
  · exact .blank (.inr (.inl tab))

/-- A part of a comment. -/
theorem passed_comment (shape : '#' :: line = a ++ c :: b) (one : '\n' ∉ line)
    (sign : Uncovered ts (byteLength read)) : Passed ts (read ++ a) c behind := by
  have front : (read ++ a) ++ [c] = read ++ (a ++ [c]) := by simp
  cases a with
  | nil =>
      obtain ⟨rfl, rfl⟩ := List.cons.inj shape
      exact .comment front List.not_mem_nil sign
  | cons d a =>
      obtain ⟨rfl, rfl⟩ := List.cons.inj shape
      refine .comment front (fun there => one ?_) sign
      change '\n' ∈ a ++ [c] at there
      show '\n' ∈ a ++ c :: b
      rw [List.append_cons]
      exact List.mem_append_left _ there

/-- What a blank line consists of. -/
theorem passed_or_struck_of_void {indent more : List Char}
    (reached : Scanned source read told s left) (starts : s.AtLine)
    (blanks : ∀ x ∈ indent, isIndent x = true)
    (void : ∀ x ∈ more.head?, x = '#' ∨ x = '\r') (one : '\n' ∉ more)
    (free : ∀ i, byteLength read ≤ i → i < byteLength (read ++ (indent ++ more)) → Uncovered ts i)
    (shape : indent ++ more = a ++ c :: b) :
    Passed ts (read ++ a) c behind ∨ Struck source (read ++ a) := by
  rcases append_eq_append_cons shape with ⟨m, rfl⟩ | ⟨m, rfl, rfl⟩
  · exact .inl (passed_of_isIndent (blanks c (by simp)))
  obtain ⟨d, line, first⟩ := List.exists_cons_of_ne_nil
    (List.append_ne_nil_of_right_ne_nil m (List.cons_ne_nil c b))
  rw [first] at void one
  have one' : '\n' ∉ line := fun there => one (List.mem_cons_of_mem _ there)
  rw [← List.append_assoc]
  rcases void d rfl with rfl | rfl
  · have sign : Uncovered ts (byteLength (read ++ indent)) := by
      refine free _ ?_ ?_
      · rw [byteLength_append]
        omega
      · rw [← List.append_assoc, byteLength_append (read ++ indent), first, byteLength]
        have := Char.utf8Size_pos '#'
        omega
    exact .inl (passed_comment first.symm one' sign)
  · cases m with
    | nil =>
        obtain ⟨rfl, _⟩ := List.cons.inj first
        exact .inl (.blank (by simp))
    | cons e m =>
        obtain ⟨rfl, rfl⟩ := List.cons.inj first
        refine .inr ⟨read, told, s, left, indent, m, reached, starts, blanks, ?_, rfl⟩
        intro there
        exact one' (List.mem_append_left _ there)

/-- **A byte that a turn takes without a token is passed, or stands on a struck line.** -/
theorem Turn.passed_or_struck {piece : List Char} (scanned : scan {} source = .ok ts)
    (reached : Scanned source read told s (piece ++ left)) (turn : Turn s piece left tokens s')
    (shape : piece = a ++ c :: b) {i : Nat} (le : byteLength (read ++ a) ≤ i)
    (lt : i < byteLength (read ++ a) + c.utf8Size) (free : Uncovered ts i) :
    Passed ts (read ++ a) c (b ++ left) ∨ Struck source (read ++ a) := by
  have quiet : tokens = [] → ∀ i, byteLength read ≤ i → i < byteLength (read ++ piece) →
      Uncovered ts i := by
    rintro rfl i le lt
    exact (reached.uncovered scanned turn le lt).2 (uncovered_nil i)
  have there : c ∈ piece := by simp [shape]
  cases turn with
  | @blankLine indent more left starts blanks void one =>
      have quiet' : ∀ i, byteLength read ≤ i → i < byteLength (read ++ (indent ++ more)) →
          Uncovered ts i := by
        intro i le lt
        refine quiet rfl i le ?_
        rw [← List.append_assoc, byteLength_append (read ++ (indent ++ more))]
        omega
      rcases append_eq_append_cons shape with ⟨m, whole⟩ | ⟨m, _, feed⟩
      · exact passed_or_struck_of_void reached starts blanks void one quiet' whole
      · have here : c ∈ ['\n'] := by simp [feed]
        exact .inl (.blank (by simp [List.mem_singleton.1 here]))
  | lastBlankLine starts blanks void one =>
      exact passed_or_struck_of_void reached starts blanks void one (quiet rfl) shape
  | level _ blanks => exact .inl (passed_of_isIndent (blanks c there))
  | lineEnd | innerEnd => exact .inl (.blank (by simp [List.mem_singleton.1 there]))
  | continued _ is =>
      cases a with
      | nil => exact .inl (.continuation is (by rw [shape]; rfl))
      | cons d a =>
          -- behind the backslash there are blanks
          have later : c ∈ piece.tail := by simp [shape]
          simp only [continuations, List.mem_cons, List.not_mem_nil, or_false] at is
          refine .inl (.blank ?_)
          rcases is with rfl | rfl
          · exact .inr (.inr (.inr (List.mem_singleton.1 later)))
          · simp only [List.tail_cons, List.mem_cons, List.not_mem_nil, or_false] at later
            exact .inr (.inr later)
  | comment _ one =>
      have sign : Uncovered ts (byteLength read) := by
        refine quiet rfl _ (Nat.le_refl _) ?_
        rw [byteLength_append, byteLength]
        have := Char.utf8Size_pos '#'
        omega
      exact .inl (passed_comment shape one sign)
  | blank _ is =>
      obtain rfl := List.mem_singleton.1 there
      rcases is with space | tab | ret
      · exact .inl (.blank (.inl space))
      · exact .inl (.blank (.inr (.inl tab)))
      · exact .inl (.blank (.inr (.inr (.inl ret))))
  | @token d rest kind n depth inside solid read' after =>
      have place := reached.offset
      have size := congrArg byteLength shape
      have here : byteLength (c :: b) = c.utf8Size + byteLength b := rfl
      rw [byteLength_append] at size le lt
      obtain ⟨more, _, rfl⟩ := (reached.turn (.token inside solid read' after)).more scanned
      refine absurd ?_ (free (s.cursor.token kind (byteLength (d :: rest.take n))) (by simp))
      simp only [Cursor.token]
      omega

/-- A struck line is taken whole. -/
theorem Struck.uncovered (scanned : scan {} source = .ok ts) {before : List Char}
    (struck : Struck source before) (shape : source = before ++ c :: behind) (one : c ≠ '\n')
    {i : Nat} (le : byteLength before ≤ i) (lt : i < byteLength before + c.utf8Size) :
    Uncovered ts i := by
  obtain ⟨read, told, s, left, indent, line, reached, starts, blanks, one', rfl⟩ := struck
  have whole : left = indent ++ '\r' :: (line ++ c :: behind) := by
    have rest := reached.shape.symm.trans shape
    simpa using rest
  have onLine : ∀ {rest : List Char}, '\n' ∉ rest → '\n' ∉ '\r' :: (line ++ c :: rest) := by
    intro rest free
    simp [one', one.symm, free]
  have le' : byteLength read ≤ i := by
    rw [List.append_assoc, byteLength_append] at le
    omega
  simp only [byteLength_append, byteLength] at lt
  rcases exists_line behind with ⟨rest, left', rfl, free⟩ | free
  · have turn : Turn s (indent ++ '\r' :: (line ++ c :: rest) ++ ['\n']) left' [] _ :=
      .blankLine starts blanks (by simp) (onLine free)
    have cut : left = indent ++ '\r' :: (line ++ c :: rest) ++ ['\n'] ++ left' := by simp [whole]
    refine ((cut ▸ reached).uncovered scanned turn le' ?_).2 (uncovered_nil i)
    simp only [byteLength_append, byteLength]
    omega
  · have turn : Turn s (indent ++ '\r' :: (line ++ c :: behind)) [] [] _ :=
      .lastBlankLine starts blanks (by simp) (onLine free) (by simp)
    have cut : left = indent ++ '\r' :: (line ++ c :: behind) ++ [] := by simp [whole]
    refine ((cut ▸ reached).uncovered scanned turn le' ?_).2 (uncovered_nil i)
    simp only [byteLength_append, byteLength]
    omega

/-- A byte of no token is passed, or stands on a struck line. -/
theorem passed_or_struck_of_uncovered (scanned : scan {} source = .ok ts) {before : List Char}
    (shape : source = before ++ c :: behind) {i : Nat} (le : byteLength before ≤ i)
    (lt : i < byteLength before + c.utf8Size) (free : Uncovered ts i) :
    Passed ts before c behind ∨ Struck source before := by
  obtain ⟨read, told, s, a, b, left, tokens, s', reached, turn, rfl⟩ :=
    exists_turn_at scanned shape
  have rest : behind = b ++ left := by
    have whole := shape.symm.trans reached.shape
    simpa using whole
  subst rest
  exact turn.passed_or_struck scanned reached rfl le lt free

/-- **Where every carriage return stands in front of a line feed, no text is dropped.** -/
theorem passed_of_uncovered (scanned : scan {} source = .ok ts)
    (feeds : ∀ before behind, source = before ++ '\r' :: behind → behind.head? = some '\n')
    {before : List Char} (shape : source = before ++ c :: behind) {i : Nat}
    (le : byteLength before ≤ i) (lt : i < byteLength before + c.utf8Size)
    (free : Uncovered ts i) : Passed ts before c behind := by
  rcases passed_or_struck_of_uncovered scanned shape le lt free with passed | struck
  · exact passed
  · obtain ⟨read, _, _, _, indent, line, _, _, _, one, rfl⟩ := struck
    have feed := feeds (read ++ indent) (line ++ c :: behind) (by simp [shape])
    cases line with
    | nil =>
        obtain rfl : c = '\n' := Option.some.inj feed
        exact .blank (by simp)
    | cons d line =>
        obtain rfl : d = '\n' := Option.some.inj feed
        exact absurd (List.mem_cons_self ..) one

end Passed

/-- **What is not told of a source.**  The tokens stand in the source one behind the other.  A
byte of no token belongs to a blank, to a comment or to a continuation, or it stands on a
line on which a carriage return ends the blanks, and of those lines no byte belongs to a
token. -/
theorem uncovered_iff_struck {source : String} {ts : List Token}
    (cut : tokenize source = .ok ts) :
    ts.Pairwise (fun a b => a.stop ≤ b.start) ∧
    (∀ t ∈ ts, t.start ≤ t.stop ∧ t.stop ≤ byteLength source.toList) ∧
    ∀ before c behind, source.toList = before ++ c :: behind → ¬Passed ts before c behind →
      ∀ i, byteLength before ≤ i → i < byteLength before + c.utf8Size →
        (Uncovered ts i ↔ Struck source.toList before) := by
  have ordered := ordered_of_scan cut
  refine ⟨ordered.apart, fun t there => ?_, ?_⟩
  · have := ordered.within t there
    simp only [Nat.zero_add] at this
    omega
  · intro before c behind shape kept i le lt
    constructor
    · intro free
      exact (passed_or_struck_of_uncovered cut shape le lt free).resolve_left kept
    · intro struck
      have one : c ≠ '\n' := fun feed => kept (.blank (by simp [feed]))
      exact struck.uncovered cut shape one le lt

/-- A continued line, a comment in brackets, and a line that is struck. -/
def struckLine : String := "x = (1, # one\n 2) \\\n + 3\n  \ry = 4 # two\nz\n"

theorem uncovered_iff_struck_struckLine : ∃ ts, tokenize struckLine = .ok ts ∧
    ts.map (fun t => (t.start, t.stop)) =
      [(0, 1), (2, 3), (4, 5), (5, 6), (6, 7), (15, 16), (16, 17), (21, 22), (23, 24), (24, 24),
        (40, 41), (41, 41), (42, 42)] ∧
    ts.Pairwise (fun a b => a.stop ≤ b.start) ∧
    (∀ t ∈ ts, t.start ≤ t.stop ∧ t.stop ≤ byteLength struckLine.toList) ∧
    ∀ before c behind, struckLine.toList = before ++ c :: behind → ¬Passed ts before c behind →
      ∀ i, byteLength before ≤ i → i < byteLength before + c.utf8Size →
        (Uncovered ts i ↔ Struck struckLine.toList before) := by
  have places : (tokenize struckLine).toOption.map (·.map fun t => (t.start, t.stop)) =
      some [(0, 1), (2, 3), (4, 5), (5, 6), (6, 7), (15, 16), (16, 17), (21, 22), (23, 24),
        (24, 24), (40, 41), (41, 41), (42, 42)] := by
    decide +kernel
  obtain ⟨ts, found, places⟩ := Option.map_eq_some_iff.1 places
  have cut := ok_of_toOption found
  exact ⟨ts, cut, places, uncovered_iff_struck cut⟩

/-- The text behind a carriage return at the start of a line is told by no token. -/
theorem text_dropped : ∃ ts, tokenize "\rx = 1\n" = .ok ts ∧
    "\rx = 1\n".toList = ['\r'] ++ 'x' :: " = 1\n".toList ∧ Uncovered ts 1 ∧
    ¬Passed ts ['\r'] 'x' " = 1\n".toList := by
  have told : (tokenize "\rx = 1\n").toOption = some [⟨.eof, 7, 7, ⟨2, 1⟩⟩] := by decide +kernel
  refine ⟨_, ok_of_toOption told, by decide, ?_, ?_⟩
  · intro t there
    obtain rfl := List.mem_singleton.1 there
    decide
  · intro passed
    cases passed with
    | blank is => revert is; decide
    | comment shape =>
        have sign : '#' ∈ ['\r', 'x'] := by simp only [List.singleton_append] at shape; simp [shape]
        revert sign
        decide
    | continuation is shape =>
        simp only [continuations, List.mem_cons, List.not_mem_nil, or_false] at is
        rcases is with rfl | rfl <;> cases shape

end PulseSequencer.Ppp
