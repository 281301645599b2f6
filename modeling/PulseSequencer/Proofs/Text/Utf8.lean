import PulseSequencer.Text.Utf8
import Mathlib.Data.List.TakeWhile

/-
# PulseSequencer.Proofs.Text.Utf8 -- how damaged bytes are read

A lossy reading (`Lossy`) is told by the bytes of the characters alone: where a character is in
front it is read, and where none is, the longest beginning of one, or else a single byte, becomes
a replacement.  The bytes of a character are those of the forms of lead bytes (`encode_cases`,
`encode_of_goes`), so that the first character is decoded to what is in front
(`readsFirst_firstChar`), and the lossy reading is the one that bytes are decoded to: `lossy_iff`.
-/

namespace PulseSequencer.Text

set_option autoImplicit false

open String (utf8EncodeChar)

/-! ## The bytes of a character -/

/-- **The lead bytes and their forms.**  The range of the second byte is smaller behind the first
and the last lead byte of a length, and before the surrogates. -/
theorem leadForm?_eq_some_iff {n : Nat} {form : LeadForm} : leadForm? n = some form ↔
    (0xc2 ≤ n ∧ n < 0xe0 ∧ form = ⟨n - 0xc0, 0x80, 0xbf, 0⟩) ∨
    (0xe0 ≤ n ∧ n < 0xf0 ∧
      form = ⟨n - 0xe0, if n = 0xe0 then 0xa0 else 0x80, if n = 0xed then 0x9f else 0xbf, 1⟩) ∨
    (0xf0 ≤ n ∧ n < 0xf5 ∧
      form = ⟨n - 0xf0, if n = 0xf0 then 0x90 else 0x80, if n = 0xf4 then 0x8f else 0xbf, 2⟩) := by
  unfold leadForm?
  grind

theorem isContinuation_iff {b : UInt8} :
    isContinuation b = true ↔ 0x80 ≤ b.toNat ∧ b.toNat ≤ 0xbf := by
  rw [isContinuation, Bool.and_eq_true, decide_eq_true_eq, decide_eq_true_eq, UInt8.le_iff_toNat_le,
    UInt8.le_iff_toNat_le]
  rfl

/-- The last six bits of a number, as a byte that follows others. -/
def follower (n : Nat) : UInt8 := UInt8.ofNat (n % 64 + 128)

theorem toNat_byte {n : Nat} (small : n < 256) : (UInt8.ofNat n).toNat = n :=
  UInt8.toNat_ofNat_of_lt' small

theorem toNat_char {n : Nat} (valid : n.isValidChar) : (Char.ofNat n).toNat = n := by
  rw [Char.ofNat, dif_pos valid]
  rfl

theorem toNat_follower (n : Nat) : (follower n).toNat = n % 64 + 128 :=
  toNat_byte (by omega)

theorem isContinuation_follower (n : Nat) : isContinuation (follower n) = true := by
  rw [isContinuation_iff, toNat_follower]
  omega

theorem encode_eq (c : Char) : utf8EncodeChar c =
    if c.toNat ≤ 127 then [UInt8.ofNat c.toNat]
    else if c.toNat ≤ 2047 then [UInt8.ofNat (c.toNat / 64 % 32 + 192), follower c.toNat]
    else if c.toNat ≤ 65535 then
      [UInt8.ofNat (c.toNat / 4096 % 16 + 224), follower (c.toNat / 64), follower c.toNat]
    else [UInt8.ofNat (c.toNat / 262144 % 8 + 240), follower (c.toNat / 4096),
      follower (c.toNat / 64), follower c.toNat] := rfl

theorem encode_of_lt {b : UInt8} (small : b.toNat < 0x80) :
    utf8EncodeChar (Char.ofNat b.toNat) = [b] := by
  rw [encode_eq, toNat_char (.inl (by omega)), if_pos (by omega), UInt8.ofNat_toNat]

/-- What stands behind a lead byte as far as it belongs to the same character: a second byte in
the range of the form, and others that follow it. -/
structure LeadForm.Goes (form : LeadForm) (second : UInt8) (others : List UInt8) : Prop where
  low : form.low ≤ second.toNat
  high : second.toNat ≤ form.high
  continues : ∀ b ∈ others, isContinuation b = true
  length_le : others.length ≤ form.more

/-- The code point that is written with these bytes. -/
def LeadForm.code (form : LeadForm) (second : UInt8) (others : List UInt8) : Nat :=
  (second :: others).foldl (fun n b => 64 * n + b.toNat % 64) form.bits

/-- **Every character has the bytes of a form**, or one byte below `0x80`. -/
theorem encode_cases (c : Char) :
    c.toNat < 0x80 ∧ utf8EncodeChar c = [UInt8.ofNat c.toNat] ∨
    ∃ lead form second others, utf8EncodeChar c = lead :: second :: others ∧
      leadForm? lead.toNat = some form ∧ form.Goes second others ∧ others.length = form.more ∧
      form.code second others = c.toNat := by
  have valid : c.toNat < 55296 ∨ 57343 < c.toNat ∧ c.toNat < 1114112 := c.valid
  rw [encode_eq]
  generalize c.toNat = v at valid ⊢
  split
  · exact .inl ⟨by omega, rfl⟩
  · right
    split
    · have lead : (UInt8.ofNat (v / 64 % 32 + 192)).toNat = v / 64 + 192 := by
        rw [toNat_byte] <;> omega
      refine ⟨_, _, _, _, rfl, leadForm?_eq_some_iff.2 (.inl ⟨by omega, by omega, rfl⟩),
        ⟨?_, ?_, List.forall_mem_nil _, by simp⟩, rfl, ?_⟩
      · rw [toNat_follower]
        exact Nat.le_add_left ..
      · rw [toNat_follower]
        dsimp only
        omega
      · simp only [LeadForm.code, List.foldl, toNat_follower, lead]
        omega
    · split
      · have lead : (UInt8.ofNat (v / 4096 % 16 + 224)).toNat = v / 4096 + 224 := by
          rw [toNat_byte] <;> omega
        refine ⟨_, _, _, _, rfl, leadForm?_eq_some_iff.2 (.inr (.inl ⟨by omega, by omega, rfl⟩)),
          ⟨?_, ?_, by simp [isContinuation_follower], by simp⟩, rfl, ?_⟩
        · rw [toNat_follower]
          dsimp only
          split <;> omega
        · rw [toNat_follower]
          dsimp only
          split <;> omega
        · simp only [LeadForm.code, List.foldl, toNat_follower, lead]
          omega
      · have lead : (UInt8.ofNat (v / 262144 % 8 + 240)).toNat = v / 262144 + 240 := by
          rw [toNat_byte] <;> omega
        refine ⟨_, _, _, _, rfl, leadForm?_eq_some_iff.2 (.inr (.inr ⟨by omega, by omega, rfl⟩)),
          ⟨?_, ?_, by simp [isContinuation_follower], by simp⟩, rfl, ?_⟩
        · rw [toNat_follower]
          dsimp only
          split <;> omega
        · rw [toNat_follower]
          dsimp only
          split <;> omega
        · simp only [LeadForm.code, List.foldl, toNat_follower, lead]
          omega

/-- **The bytes of a form are those of a character.** -/
theorem encode_of_goes {lead : UInt8} {form : LeadForm} {second : UInt8} {others : List UInt8}
    (leads : leadForm? lead.toNat = some form) (goes : form.Goes second others)
    (whole : others.length = form.more) :
    utf8EncodeChar (Char.ofNat (form.code second others)) = lead :: second :: others := by
  obtain ⟨low, high, continues, _⟩ := goes
  rcases leadForm?_eq_some_iff.1 leads with ⟨least, greatest, rfl⟩ | ⟨least, greatest, rfl⟩ |
    ⟨least, greatest, rfl⟩
  · obtain rfl := List.length_eq_zero_iff.1 whole
    dsimp only at low high
    have code : (Char.ofNat (LeadForm.code ⟨lead.toNat - 0xc0, 0x80, 0xbf, 0⟩ second [])).toNat =
        64 * (lead.toNat - 0xc0) + second.toNat % 64 :=
      toNat_char (.inl (by simp only [LeadForm.code, List.foldl]; omega))
    rw [encode_eq, code, if_neg (by omega), if_pos (by omega)]
    simp only [List.cons.injEq, ← UInt8.toNat_inj, toNat_follower, and_true]
    rw [toNat_byte (by omega)]
    omega
  · obtain ⟨third, rfl⟩ := List.length_eq_one_iff.1 whole
    obtain ⟨thirdLow, thirdHigh⟩ := isContinuation_iff.1 (continues _ (List.mem_singleton_self _))
    have range : 0x80 ≤ second.toNat ∧ second.toNat ≤ 0xbf ∧
        (lead.toNat = 0xe0 → 0xa0 ≤ second.toNat) ∧ (lead.toNat = 0xed → second.toNat ≤ 0x9f) := by
      dsimp only at low high
      split at low <;> split at high <;> omega
    have valid : (64 * (64 * (lead.toNat - 0xe0) + second.toNat % 64) +
        third.toNat % 64).isValidChar := by
      rw [Nat.isValidChar]
      omega
    rw [LeadForm.code, List.foldl, List.foldl, List.foldl, encode_eq, toNat_char valid,
      if_neg (by omega), if_neg (by omega), if_pos (by omega)]
    simp only [List.cons.injEq, ← UInt8.toNat_inj, toNat_follower, and_true]
    rw [toNat_byte (by omega)]
    omega
  · obtain ⟨third, fourth, rfl⟩ : ∃ third fourth, others = [third, fourth] := by
      match others, whole with
      | [third, fourth], _ => exact ⟨third, fourth, rfl⟩
    obtain ⟨thirdLow, thirdHigh⟩ := isContinuation_iff.1 (continues third (by simp))
    obtain ⟨fourthLow, fourthHigh⟩ := isContinuation_iff.1 (continues fourth (by simp))
    have range : 0x80 ≤ second.toNat ∧ second.toNat ≤ 0xbf ∧
        (lead.toNat = 0xf0 → 0x90 ≤ second.toNat) ∧ (lead.toNat = 0xf4 → second.toNat ≤ 0x8f) := by
      dsimp only at low high
      split at low <;> split at high <;> omega
    have valid : (64 * (64 * (64 * (lead.toNat - 0xf0) + second.toNat % 64) + third.toNat % 64) +
        fourth.toNat % 64).isValidChar := by
      rw [Nat.isValidChar]
      omega
    rw [LeadForm.code, List.foldl, List.foldl, List.foldl, List.foldl, encode_eq, toNat_char valid,
      if_neg (by omega), if_neg (by omega), if_neg (by omega)]
    simp only [List.cons.injEq, ← UInt8.toNat_inj, toNat_follower, and_true]
    rw [toNat_byte (by omega)]
    omega

/-! ## The first character -/

/-- Bytes that some character begins with. -/
def Begins (bytes : List UInt8) : Prop := ∃ c, bytes <+: utf8EncodeChar c

theorem begins_encode (c : Char) : Begins (utf8EncodeChar c) := ⟨c, List.prefix_rfl⟩

theorem Begins.shorter {bytes longer : List UInt8} (begins : Begins longer)
    (inside : bytes <+: longer) : Begins bytes :=
  begins.imp fun _ front => inside.trans front

/-- What a lead byte goes on with is the beginning of a character: the bytes that are missing may
be any that follow others. -/
theorem begins_of_goes {lead second : UInt8} {others : List UInt8} {form : LeadForm}
    (leads : leadForm? lead.toNat = some form) (goes : form.Goes second others) :
    Begins (lead :: second :: others) := by
  have size : (others ++ List.replicate (form.more - others.length) (follower 0)).length =
      form.more := by
    rw [List.length_append, List.length_replicate, Nat.add_sub_cancel' goes.length_le]
  have whole : form.Goes second
      (others ++ List.replicate (form.more - others.length) (follower 0)) := by
    refine ⟨goes.low, goes.high, List.forall_mem_append.2 ⟨goes.continues, fun b there => ?_⟩,
      Nat.le_of_eq size⟩
    rw [List.eq_of_mem_replicate there, isContinuation_follower]
  have filled := begins_encode (Char.ofNat (form.code second
    (others ++ List.replicate (form.more - others.length) (follower 0))))
  rw [encode_of_goes leads whole size] at filled
  exact filled.shorter (List.prefix_append (lead :: second :: others) _)

/-- **What a character begins with**: a byte of its own, or a lead byte and what it goes on with. -/
theorem begins_cons_iff {lead : UInt8} {tail : List UInt8} : Begins (lead :: tail) ↔
    tail = [] ∧ lead.toNat < 0x80 ∨ ∃ form, leadForm? lead.toNat = some form ∧
      (tail = [] ∨ ∃ second others, tail = second :: others ∧ form.Goes second others) := by
  constructor
  · rintro ⟨c, inside⟩
    rcases encode_cases c with ⟨small, bytes⟩ |
      ⟨lead', form, second, others, bytes, leads, goes, -, -⟩
    · rw [bytes, List.cons_prefix_cons, List.prefix_nil] at inside
      obtain ⟨rfl, none'⟩ := inside
      exact .inl ⟨none', by rwa [toNat_byte (by omega)]⟩
    · rw [bytes, List.cons_prefix_cons] at inside
      obtain ⟨rfl, inside⟩ := inside
      refine .inr ⟨form, leads, ?_⟩
      cases tail with
      | nil => exact .inl rfl
      | cons b more =>
          rw [List.cons_prefix_cons] at inside
          obtain ⟨rfl, inside⟩ := inside
          exact .inr ⟨b, more, rfl, goes.low, goes.high,
            fun x there => goes.continues x (inside.subset there),
            Nat.le_trans inside.length_le goes.length_le⟩
  · rintro (⟨rfl, small⟩ | ⟨form, leads, rest⟩)
    · have alone := begins_encode (Char.ofNat lead.toNat)
      rwa [encode_of_lt small] at alone
    · rcases rest with rfl | ⟨second, others, rfl, goes⟩
      · have range : form.low < 256 ∧ form.low ≤ form.high := by
          rcases leadForm?_eq_some_iff.1 leads with ⟨-, -, rfl⟩ | ⟨-, -, rfl⟩ | ⟨-, -, rfl⟩ <;>
            grind
        have low := toNat_byte range.1
        have goes : form.Goes (UInt8.ofNat form.low) [] :=
          ⟨by omega, by omega, List.forall_mem_nil _, Nat.zero_le _⟩
        exact (begins_of_goes leads goes).shorter (List.prefix_append [lead] _)
      · exact begins_of_goes leads goes

/-- **A part of damaged bytes that one replacement stands for**: no character is in front, and
the part is the longest beginning of one, or a single byte. -/
structure Damaged (part rest : List UInt8) : Prop where
  no_char : ∀ c, ¬utf8EncodeChar c <+: part ++ rest
  some_byte : part ≠ []
  begins : Begins part ∨ part.length = 1
  longest : ∀ longer, longer <+: part ++ rest → Begins longer → longer.length ≤ part.length

/-- There is one such part. -/
theorem Damaged.unique {part rest part' rest' : List UInt8} (one : Damaged part rest)
    (other : Damaged part' rest') (same : part ++ rest = part' ++ rest') :
    part = part' ∧ rest = rest' := by
  refine List.append_inj same ?_
  have some' := List.length_pos_iff.2 one.some_byte
  have some'' := List.length_pos_iff.2 other.some_byte
  have below : part.length ≤ part'.length := by
    rcases one.begins with begins | single
    · exact other.longest part (same ▸ List.prefix_append ..) begins
    · omega
  have above : part'.length ≤ part.length := by
    rcases other.begins with begins | single
    · exact one.longest part' (same ▸ List.prefix_append ..) begins
    · omega
  omega

/-- A lead byte is damaged if what it goes on with is always cut off too early. -/
theorem damaged_of_cut {lead : UInt8} {rest : List UInt8} {k : Nat} (large : ¬lead.toNat < 0x80)
    (cut : ∀ form second others, leadForm? lead.toNat = some form → form.Goes second others →
      second :: others <+: rest → others.length < form.more ∧ others.length + 1 ≤ k)
    (begins : k = 0 ∨ Begins (lead :: rest.take k)) (inside : k ≤ rest.length) :
    Damaged (lead :: rest.take k) (rest.drop k) where
  no_char c := by
    rw [List.cons_append, List.take_append_drop]
    intro front
    rcases encode_cases c with ⟨small, bytes⟩ |
      ⟨lead', form, second, others, bytes, leads, goes, whole, -⟩
    · rw [bytes, List.cons_prefix_cons] at front
      rw [← front.1, toNat_byte (by omega)] at large
      exact large small
    · rw [bytes, List.cons_prefix_cons] at front
      obtain ⟨rfl, front⟩ := front
      have := (cut form second others leads goes front).1
      omega
  some_byte := List.cons_ne_nil _ _
  begins := by
    rcases begins with rfl | begins
    · exact .inr rfl
    · exact .inl begins
  longest longer front begun := by
    rw [List.cons_append, List.take_append_drop] at front
    rw [List.length_cons, List.length_take_of_le inside]
    cases longer with
    | nil => exact Nat.zero_le _
    | cons b tail =>
        rw [List.cons_prefix_cons] at front
        obtain ⟨rfl, front⟩ := front
        rcases begins_cons_iff.1 begun with ⟨rfl, -⟩ |
          ⟨form, leads, rfl | ⟨second, others, rfl, goes⟩⟩
        · exact Nat.succ_le_succ (Nat.zero_le _)
        · exact Nat.succ_le_succ (Nat.zero_le _)
        · exact Nat.succ_le_succ (cut form second others leads goes front).2

/-- The bytes that follow others, as far as a form asks for them. -/
theorem prefix_takeWhile {others rest : List UInt8} {more : Nat} (front : others <+: rest)
    (continues : ∀ b ∈ others, isContinuation b = true) (short : others.length ≤ more) :
    others <+: (rest.take more).takeWhile isContinuation := by
  obtain ⟨behind, whole⟩ := List.prefix_take_iff.2 ⟨front, short⟩
  rw [← whole, List.takeWhile_append_of_pos continues]
  exact List.prefix_append ..

section FirstChar

variable {lead second : UInt8} {rest : List UInt8} {form : LeadForm}

theorem firstChar_of_lt (small : lead.toNat < 0x80) :
    firstChar lead rest = (Char.ofNat lead.toNat, 0) := by
  unfold firstChar
  rw [if_pos (UInt8.lt_iff_toNat_lt.2 small)]

theorem not_lt_of_leadForm? (leads : leadForm? lead.toNat = some form) : ¬lead.toNat < 0x80 := by
  rcases leadForm?_eq_some_iff.1 leads with ⟨least, -⟩ | ⟨least, -⟩ | ⟨least, -⟩ <;> omega

theorem firstChar_of_leadForm? (leads : leadForm? lead.toNat = some form) :
    firstChar lead (second :: rest) =
      if second.toNat < form.low ∨ form.high < second.toNat then (replacement, 0)
      else if ((rest.take form.more).takeWhile isContinuation).length < form.more then
        (replacement, ((rest.take form.more).takeWhile isContinuation).length + 1)
      else (Char.ofNat (form.code second ((rest.take form.more).takeWhile isContinuation)),
        ((rest.take form.more).takeWhile isContinuation).length + 1) := by
  have large : ¬lead < 0x80 := fun small =>
    not_lt_of_leadForm? leads (UInt8.lt_iff_toNat_lt.1 small)
  unfold firstChar
  rw [if_neg large, leads]
  rfl

theorem firstChar_of_stray (large : ¬lead.toNat < 0x80)
    (stray : leadForm? lead.toNat = none ∨ rest = []) : firstChar lead rest = (replacement, 0) := by
  unfold firstChar
  rw [if_neg fun small => large (UInt8.lt_iff_toNat_lt.1 small)]
  split
  · rename_i leads
    rcases stray with none' | none'
    · rw [none'] at leads
      cases leads
    · cases none'
  · rfl

end FirstChar

/-- **The character in front is found.** -/
theorem firstChar_encode {c : Char} {lead : UInt8} {tail : List UInt8}
    (bytes : utf8EncodeChar c = lead :: tail) (rest : List UInt8) :
    firstChar lead (tail ++ rest) = (c, tail.length) := by
  rcases encode_cases c with ⟨small, alone⟩ |
    ⟨lead', form, second, others, several, leads, goes, whole, code⟩
  · obtain ⟨rfl, rfl⟩ := List.cons.inj (alone.symm.trans bytes)
    have value : (UInt8.ofNat c.toNat).toNat = c.toNat := toNat_byte (by omega)
    rw [firstChar_of_lt (by rwa [value]), value, Char.ofNat_toNat]
    rfl
  · obtain ⟨rfl, rfl⟩ := List.cons.inj (several.symm.trans bytes)
    have taken : ((others ++ rest).take form.more).takeWhile isContinuation = others := by
      rw [List.take_left' whole]
      exact List.takeWhile_eq_self_iff.2 goes.continues
    have inRange : ¬(second.toNat < form.low ∨ form.high < second.toNat) := by
      have := goes.low
      have := goes.high
      omega
    rw [List.cons_append, firstChar_of_leadForm? leads, if_neg inRange, taken, if_neg (by omega),
      code, Char.ofNat_toNat]
    rfl

/-- What the first character is read from: the bytes of a character, or a damaged part. -/
def ReadsFirst (lead : UInt8) (rest : List UInt8) (first : Char × Nat) : Prop :=
  utf8EncodeChar first.1 = lead :: rest.take first.2 ∨
    first.1 = replacement ∧ Damaged (lead :: rest.take first.2) (rest.drop first.2)

/-- A byte that nothing can follow in a character is damaged alone. -/
theorem readsFirst_alone {lead : UInt8} {rest : List UInt8} (large : ¬lead.toNat < 0x80)
    (alone : ∀ form second others, leadForm? lead.toNat = some form → form.Goes second others →
      ¬second :: others <+: rest) : ReadsFirst lead rest (replacement, 0) :=
  .inr ⟨rfl, damaged_of_cut large
    (fun form second others leads goes front => absurd front (alone form second others leads goes))
    (.inl rfl) (Nat.zero_le _)⟩

/-- Behind a lead byte the second one is out of range, or others are missing, or none is. -/
theorem readsFirst_of_leadForm? {lead second : UInt8} {rest : List UInt8} {form : LeadForm}
    (leads : leadForm? lead.toNat = some form) :
    ReadsFirst lead (second :: rest) (firstChar lead (second :: rest)) := by
  have large := not_lt_of_leadForm? leads
  have length_le : ((rest.take form.more).takeWhile isContinuation).length ≤ form.more :=
    Nat.le_trans (List.takeWhile_prefix _).length_le (List.length_take_le ..)
  have front : (rest.take form.more).takeWhile isContinuation <+: rest :=
    (List.takeWhile_prefix _).trans (List.take_prefix ..)
  have continues : ∀ b ∈ (rest.take form.more).takeWhile isContinuation, isContinuation b = true :=
    fun b there => List.mem_takeWhile_imp there
  rw [firstChar_of_leadForm? leads]
  split
  · rename_i outside
    refine readsFirst_alone large fun form' second' others leads' goes front => ?_
    obtain rfl := Option.some.inj (leads.symm.trans leads')
    obtain rfl := (List.cons_prefix_cons.1 front).1
    have := goes.low
    have := goes.high
    omega
  · rename_i inRange
    generalize followers : (rest.take form.more).takeWhile isContinuation = others at *
    have goes : form.Goes second others := ⟨by omega, by omega, continues, length_le⟩
    have taken : (second :: rest).take (others.length + 1) = second :: others :=
      congrArg (second :: ·) (List.prefix_iff_eq_take.1 front).symm
    split
    · rename_i short
      refine .inr ⟨rfl, damaged_of_cut large ?_ (.inr ?_) (Nat.succ_le_succ front.length_le)⟩
      · intro form' second' others' leads' goes' front'
        obtain rfl := Option.some.inj (leads.symm.trans leads')
        have kept := (prefix_takeWhile (List.cons_prefix_cons.1 front').2 goes'.continues
          goes'.length_le).length_le
        rw [followers] at kept
        exact ⟨Nat.lt_of_le_of_lt kept short, Nat.succ_le_succ kept⟩
      · rw [taken]
        exact begins_of_goes leads goes
    · rename_i long
      refine .inl ?_
      rw [taken]
      exact encode_of_goes leads goes (Nat.le_antisymm length_le (Nat.not_lt.1 long))

/-- **What is in front of bytes**: a character, or a damaged part. -/
theorem readsFirst_firstChar (lead : UInt8) (rest : List UInt8) :
    ReadsFirst lead rest (firstChar lead rest) := by
  by_cases small : lead.toNat < 0x80
  · rw [firstChar_of_lt small]
    exact .inl (encode_of_lt small)
  · cases leads : leadForm? lead.toNat with
    | none =>
        rw [firstChar_of_stray small (.inl leads)]
        refine readsFirst_alone small fun form second others leads' => ?_
        rw [leads] at leads'
        cases leads'
    | some form =>
        cases rest with
        | nil =>
            rw [firstChar_of_stray small (.inr rfl)]
            refine readsFirst_alone small fun form second others leads' goes front => ?_
            cases List.prefix_nil.1 front
        | cons second rest => exact readsFirst_of_leadForm? leads

/-! ## Texts -/

/-- **A lossy reading of bytes**: characters are read as they are, and every damaged part
becomes one replacement character. -/
inductive Lossy : List UInt8 → List Char → Prop where
  | nil : Lossy [] []
  | char (c : Char) {rest : List UInt8} {text : List Char} (behind : Lossy rest text) :
      Lossy (utf8EncodeChar c ++ rest) (c :: text)
  | damaged {part rest : List UInt8} {text : List Char} (damaged : Damaged part rest)
      (behind : Lossy rest text) : Lossy (part ++ rest) (replacement :: text)

theorem lossy_decodeUtf8 (bytes : List UInt8) : Lossy bytes (decodeUtf8 bytes) := by
  fun_induction decodeUtf8 bytes with
  | case1 => exact .nil
  | case2 lead rest ih =>
      have parts : lead :: rest = (lead :: rest.take (firstChar lead rest).2) ++
          rest.drop (firstChar lead rest).2 := by
        rw [List.cons_append, List.take_append_drop]
      rcases readsFirst_firstChar lead rest with whole | ⟨replaced, damaged⟩
      · rw [parts, ← whole]
        exact .char _ ih
      · rw [parts, replaced]
        exact .damaged damaged ih

/-- **The lossy reading of bytes is the one that they are decoded to.** -/
theorem lossy_iff {bytes : List UInt8} {text : List Char} :
    Lossy bytes text ↔ text = decodeUtf8 bytes := by
  refine ⟨fun lossy => ?_, fun same => same ▸ lossy_decodeUtf8 bytes⟩
  induction lossy with
  | nil => rw [decodeUtf8]
  | @char c rest text behind ih =>
      cases shape : utf8EncodeChar c with
      | nil =>
          rcases encode_cases c with ⟨-, bytes⟩ | ⟨_, _, _, _, bytes, -⟩
          · cases bytes.symm.trans shape
          · cases bytes.symm.trans shape
      | cons lead tail =>
          rw [List.cons_append, decodeUtf8, firstChar_encode shape, List.drop_left, ih]
  | @damaged part rest text damaged behind ih =>
      obtain ⟨lead, tail, rfl⟩ := List.exists_cons_of_ne_nil damaged.some_byte
      rcases readsFirst_firstChar lead (tail ++ rest) with whole | ⟨replaced, other⟩
      · refine absurd ?_ (damaged.no_char (firstChar lead (tail ++ rest)).1)
        rw [whole]
        exact List.cons_prefix_cons.2 ⟨rfl, List.take_prefix ..⟩
      · have same := damaged.unique other (by
          rw [List.cons_append, List.cons_append, List.take_append_drop])
        rw [List.cons_append, decodeUtf8, replaced, ← same.2, ih]

end PulseSequencer.Text
