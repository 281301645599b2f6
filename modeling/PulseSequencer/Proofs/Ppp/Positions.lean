import PulseSequencer.Proofs.Ppp.Scanning

/-
# PulseSequencer.Proofs.Ppp.Positions -- one count of lines and another

The scanner counts lines as it goes, and the map of a source finds them by the bytes at
which they start.  The scanner's cursor passes over every character that it takes
(`Turn.pass`), and behind any text it stands where the map says (`position_pass`).  So every
token is where the map finds its first byte (`position_of_tokenize`), tokens without a text
and those behind continued lines, brackets and blank lines included.
-/

namespace PulseSequencer.Ppp

open PulseSequencer.Text (byteLength)

set_option autoImplicit false

/-! ## The cursor -/

namespace Cursor

/-- The cursor behind some more text. -/
def pass (c : Cursor) : List Char → Cursor
  | [] => c
  | x :: rest => if x = '\n' then (c.skipLine 1).pass rest else (c.skip x.utf8Size).pass rest

variable {line : List Char}

theorem pass_append (c : Cursor) (a b : List Char) : c.pass (a ++ b) = (c.pass a).pass b := by
  induction a generalizing c with
  | nil => rfl
  | cons x rest ih =>
      rw [List.cons_append, pass, pass]
      split <;> exact ih _

theorem pass_line (c : Cursor) (one : '\n' ∉ line) : c.pass line = c.skip (byteLength line) := by
  induction line generalizing c with
  | nil => rfl
  | cons x rest ih =>
      rw [List.mem_cons, not_or] at one
      rw [pass, if_neg (Ne.symm one.1), ih _ one.2, skip, skip, skip, Nat.add_assoc]
      rfl

theorem pass_feed (c : Cursor) (one : '\n' ∉ line) :
    c.pass (line ++ ['\n']) = c.skipLine (byteLength line + 1) := by
  rw [pass_append, pass_line c one]
  rfl

@[simp] theorem pass_offset (c : Cursor) (cs : List Char) :
    (c.pass cs).offset = c.offset + byteLength cs := by
  induction cs generalizing c with
  | nil => rfl
  | cons x rest ih =>
      rw [pass]
      split
      · rename_i feed
        subst feed
        rw [ih, skipLine, byteLength, Nat.add_assoc]
        rfl
      · rw [ih, skip, byteLength, Nat.add_assoc]

end Cursor

section Turns

variable {s s' : LexState} {piece left : List Char} {tokens : List Token}

/-- **The cursor passes over the text of a turn.**  However a turn counts, it is by the line
feeds that it takes. -/
theorem Turn.pass (turn : Turn s piece left tokens s') : s'.cursor = s.cursor.pass piece := by
  cases turn with
  | blankLine _ blanks _ one => exact (s.cursor.pass_feed (feed_not_mem_blank blanks one)).symm
  | lastBlankLine _ blanks _ one =>
      exact (s.cursor.pass_line (feed_not_mem_blank blanks one)).symm
  | level _ blanks =>
      have one : '\n' ∉ piece ++ [] := feed_not_mem_blank blanks List.not_mem_nil
      rw [List.append_nil] at one
      rw [s.cursor.pass_line one, byteLength_indent blanks]
  | lineEnd | innerEnd => rfl
  | continued _ is =>
      simp only [continuations, List.mem_cons, List.not_mem_nil, or_false] at is
      rcases is with rfl | rfl <;> rfl
  | comment _ one =>
      refine (s.cursor.pass_line ?_).symm
      simpa using one
  | blank _ is => rcases is with rfl | rfl | rfl <;> rfl
  | token _ _ read => exact (s.cursor.pass_line (wording_of_lexeme read).one).symm

/-- The tokens of a turn stand in front of some of its text or behind it. -/
theorem Turn.places (turn : Turn s piece left tokens s') : ∀ t ∈ tokens, ∃ a b, piece = a ++ b ∧
    t.start = (s.cursor.pass a).offset ∧ t.position = (s.cursor.pass a).position := by
  intro t there
  have pass := turn.pass
  cases turn with
  | level _ _ _ _ changed =>
      obtain ⟨kind, _, rfl⟩ := (levelChange_of_ok changed).places t there
      refine ⟨piece, [], (List.append_nil _).symm, ?_⟩
      rw [← pass]
      exact ⟨rfl, rfl⟩
  | lineEnd | token =>
      obtain rfl := List.mem_singleton.1 there
      exact ⟨[], _, rfl, rfl, rfl⟩
  | _ => cases there

end Turns

/-! ## The map of a source -/

namespace SourceMap

theorem startsAfter_append (offset : Nat) (a b : List Char) :
    startsAfter offset (a ++ b) = startsAfter offset a ++ startsAfter (offset + byteLength a) b := by
  induction a generalizing offset with
  | nil => rfl
  | cons x rest ih =>
      rw [List.cons_append, startsAfter, startsAfter, byteLength, ← Nat.add_assoc]
      split <;> rw [ih]
      rfl

/-- The lines of a text start inside it or right behind it. -/
theorem mem_startsAfter {offset start : Nat} {cs : List Char}
    (there : start ∈ startsAfter offset cs) : offset < start ∧ start ≤ offset + byteLength cs := by
  induction cs generalizing offset with
  | nil => cases there
  | cons x rest ih =>
      have wide := x.utf8Size_pos
      rw [startsAfter] at there
      rw [byteLength]
      split at there
      · rcases List.mem_cons.1 there with rfl | later
        · omega
        · have := ih later
          omega
      · have := ih there
        omega

/-- The lines that start at or before a place are those of the text in front of it. -/
theorem startsBefore (before behind : List Char) :
    (0 :: startsAfter 0 (before ++ behind)).takeWhile (· ≤ byteLength before) =
      0 :: startsAfter 0 before := by
  rw [startsAfter_append, ← List.cons_append]
  refine Text.takeWhile_append_stop ?_ ?_
  · intro start there
    rcases List.mem_cons.1 there with rfl | there
    · simp
    · have := mem_startsAfter there
      simp only [decide_eq_true_eq]
      omega
  · intro start there
    have := mem_startsAfter (List.mem_of_mem_head? there)
    simp only [decide_eq_false_iff_not]
    omega

end SourceMap

/-- What the cursor knows of the lines of a text that it passes. -/
theorem Cursor.pass_lines (c : Cursor) (cs : List Char) :
    (c.pass cs).line = c.line + (SourceMap.startsAfter c.offset cs).length ∧
      (c.pass cs).lineStart = (SourceMap.startsAfter c.offset cs).getLast?.getD c.lineStart := by
  induction cs generalizing c with
  | nil => exact ⟨rfl, rfl⟩
  | cons x rest ih =>
      rw [Cursor.pass, SourceMap.startsAfter]
      by_cases feed : x = '\n'
      · subst feed
        obtain ⟨line, start⟩ := ih (c.skipLine 1)
        rw [if_pos rfl, if_pos rfl, line, start, List.length_cons, List.getLast?_cons]
        exact ⟨Nat.add_right_comm c.line 1 _, rfl⟩
      · rw [if_neg feed, if_neg feed]
        exact ih (c.skip x.utf8Size)

/-- **Behind any text the cursor stands where the map says.** -/
theorem position_pass {source : String} {before behind : List Char}
    (shape : source.toList = before ++ behind) :
    (SourceMap.ofSource source).position (byteLength before) =
      (({} : Cursor).pass before).position := by
  obtain ⟨line, start⟩ := Cursor.pass_lines {} before
  rw [SourceMap.position, SourceMap.ofSource, shape, SourceMap.startsBefore, Cursor.position, line,
    start, Cursor.pass_offset, List.getLast?_cons]
  simp only [List.length_cons, Option.getD_some, Nat.zero_add]
  congr 1
  omega

/-! ## Tokens -/

section Tokens

variable {source read left : List Char} {told : List Token} {s : LexState}

theorem Scanned.pass (reached : Scanned source read told s left) :
    s.cursor = ({} : Cursor).pass read := by
  induction reached with
  | start => rfl
  | turn _ turn ih => rw [turn.pass, ih, Cursor.pass_append]

theorem Scanned.offset (reached : Scanned source read told s left) :
    s.cursor.offset = byteLength read := by
  rw [reached.pass, Cursor.pass_offset]
  exact Nat.zero_add _

/-- A token stands at some place of its source. -/
theorem exists_place {ts : List Token} {t : Token} (scanned : scan {} source = .ok ts)
    (there : t ∈ ts) : ∃ before behind, source = before ++ behind ∧
      t.start = byteLength before ∧ t.position = (({} : Cursor).pass before).position := by
  obtain ⟨_, _, shape⟩ := List.append_of_mem there
  rcases exists_telling scanned shape with
    ⟨read, _, s, piece, left, tokens, s', _, _, reached, turn, _, rfl⟩ |
    ⟨_, s, closing, _, _, reached, closed, _, rfl⟩
  · obtain ⟨a, b, rfl, start, position⟩ := turn.places t (by simp)
    refine ⟨read ++ a, b ++ left, ?_, ?_, ?_⟩
    · rw [reached.shape]
      simp
    · rw [start, reached.pass, ← Cursor.pass_append, Cursor.pass_offset]
      exact Nat.zero_add _
    · rw [position, reached.pass, Cursor.pass_append]
  · obtain ⟨kind, _, _, rfl⟩ := places_of_finish closed t (by simp)
    exact ⟨source, [], (List.append_nil _).symm, reached.offset,
      congrArg Cursor.position reached.pass⟩

end Tokens

/-- **Every token of a source is where the map of the source finds its start.** -/
theorem position_of_tokenize {source : String} {ts : List Token} (cut : tokenize source = .ok ts) :
    ∀ t ∈ ts, (SourceMap.ofSource source).position t.start = t.position := by
  intro t there
  obtain ⟨before, behind, shape, start, position⟩ := exists_place cut there
  rw [start, position, position_pass shape]

/-- Lines that go on in brackets and behind backslashes, blank lines, both kinds of line ends and
a level that is still open at the end. -/
def mixedLines : String :=
  "if \u00e4:\r\n\t# note\r\n\n  f(1,\r\n 2) \\\r\n + \"\u20ac\" \\\n - x\n  return"

theorem position_of_tokenize_mixedLines : ∃ ts, tokenize mixedLines = .ok ts ∧
    ts.map (fun t => (t.start, t.position.line, t.position.column)) =
      [(0, 1, 1), (3, 1, 4), (5, 1, 6), (7, 1, 8), (20, 4, 3), (20, 4, 3), (21, 4, 4), (22, 4, 5),
        (23, 4, 6), (27, 5, 2), (28, 5, 3), (34, 6, 2), (36, 6, 4), (45, 7, 2), (47, 7, 4),
        (48, 7, 5), (51, 8, 3), (57, 8, 9), (57, 8, 9), (57, 8, 9)] ∧
    ∀ t ∈ ts, (SourceMap.ofSource mixedLines).position t.start = t.position := by
  have places : (tokenize mixedLines).toOption.map
      (·.map fun t => (t.start, t.position.line, t.position.column)) =
        some [(0, 1, 1), (3, 1, 4), (5, 1, 6), (7, 1, 8), (20, 4, 3), (20, 4, 3), (21, 4, 4),
          (22, 4, 5), (23, 4, 6), (27, 5, 2), (28, 5, 3), (34, 6, 2), (36, 6, 4), (45, 7, 2),
          (47, 7, 4), (48, 7, 5), (51, 8, 3), (57, 8, 9), (57, 8, 9), (57, 8, 9)] := by
    decide +kernel
  obtain ⟨ts, found, places⟩ := Option.map_eq_some_iff.1 places
  have cut := ok_of_toOption found
  exact ⟨ts, cut, places, position_of_tokenize cut⟩

end PulseSequencer.Ppp
