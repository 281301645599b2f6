/-
# PulseSequencer.Text.Blank -- blanks, trimming and words

A set of code points is written as the flat list `lo₁, hi₁, lo₂, hi₂, …` of the
ends of its ranges, both included.  A blank is a character with the Unicode property
White_Space.  Trimming removes blanks at the ends, and the words of a text are what
stands between blanks.
-/

namespace PulseSequencer.Text

set_option autoImplicit false

/-- Whether `n` lies in one of the ranges. -/
def within : List Nat → Nat → Bool
  | lo :: hi :: rest, n => (lo ≤ n && n ≤ hi) || within rest n
  | _, _ => false

/-! ## Blanks -/

/-- The code points with the property White_Space. -/
def blankRanges : List Nat :=
  [0x9, 0xD, 0x20, 0x20, 0x85, 0x85, 0xA0, 0xA0, 0x1680, 0x1680, 0x2000, 0x200A, 0x2028, 0x2029,
  0x202F, 0x202F, 0x205F, 0x205F, 0x3000, 0x3000]

def isBlank (c : Char) : Bool := within blankRanges c.toNat

/-- Removes blanks at the front. -/
def trimLeft (cs : List Char) : List Char := cs.dropWhile isBlank

/-- Removes blanks at the end. -/
def trimRight (cs : List Char) : List Char := (cs.reverse.dropWhile isBlank).reverse

/-- Removes blanks at both ends. -/
def trim (cs : List Char) : List Char := trimRight (trimLeft cs)

/-- The text without any of its blanks. -/
def withoutBlanks (cs : List Char) : List Char := cs.filter fun c => !isBlank c

/-- The pieces between the characters that satisfy `cut`, empty ones included;
there is always at least one. -/
def splitAll (cut : Char → Bool) : List Char → List (List Char)
  | [] => [[]]
  | c :: rest =>
      if cut c then [] :: splitAll cut rest
      else match splitAll cut rest with
        | [] => [[c]]
        | piece :: pieces => (c :: piece) :: pieces

/-- The nonempty pieces between blanks. -/
def words (cs : List Char) : List (List Char) :=
  (splitAll isBlank cs).filter (· ≠ [])

/-- Cuts at the first character that satisfies `cut`, which is dropped. -/
def splitFirst? (cut : Char → Bool) : List Char → Option (List Char × List Char)
  | [] => none
  | c :: rest =>
      if cut c then some ([], rest)
      else (splitFirst? cut rest).map fun (before, after) => (c :: before, after)

theorem length_splitFirst? {cut : Char → Bool} {cs before after : List Char}
    (h : splitFirst? cut cs = some (before, after)) :
    before.length + after.length + 1 = cs.length := by
  induction cs generalizing before with
  | nil => simp [splitFirst?] at h
  | cons c rest ih =>
      by_cases hc : cut c = true
      · simp [splitFirst?, hc] at h
        obtain ⟨rfl, rfl⟩ := h
        simp
      · simp only [splitFirst?, hc, Bool.false_eq_true, if_false, Option.map_eq_some_iff] at h
        obtain ⟨⟨b, a⟩, hr, he⟩ := h
        simp only [Prod.mk.injEq] at he
        obtain ⟨rfl, rfl⟩ := he
        have := ih hr
        simp only [List.length_cons]
        omega

/-- What follows `head` in `cs`, if `cs` starts with it. -/
def after? : (head cs : List Char) → Option (List Char)
  | [], cs => some cs
  | h :: hs, c :: cs => if h = c then after? hs cs else none
  | _ :: _, [] => none

/-- The lines of a text.  A line feed, or a carriage return and a line feed, ends
a line; no empty line follows the last end. -/
def lines (cs : List Char) : List (List Char) :=
  let pieces := splitAll (· = '\n') cs
  let closed := pieces.dropLast.map fun line =>
    match line.getLast? with
    | some '\r' => line.dropLast
    | _ => line
  match pieces.getLast? with
  | none | some [] => closed
  | some last => closed ++ [last]

end PulseSequencer.Text
