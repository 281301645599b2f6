import PulseSequencer.Proofs.Bytes
import PulseSequencer.Telemetry.Decoder
import Mathlib.Tactic.NormNum
import Mathlib.Tactic.Ring

/-
# PulseSequencer.Proofs.Telemetry.Decoding -- the decoder reads a stream, not its pieces

What a decoder makes of a stream depends on the words that it can complete and on
the bytes that are left.  A decoder that waits for the end of a word fills it up before it
looks further; that gives the words of the waiting bytes and the piece together
(`Decoder.completeWords_eq`).  Neither words nor rest depend on how the stream is handed over,
so that feeding two pieces is feeding their concatenation: `Decoder.completeWords_append` for
the words and `Decoder.feed_append` for the tokens.  Pieces may end anywhere: inside a word, between
the two words of a result, or with no byte at all.  No byte is lost or made up
(`bytesOfWords_splitWords`), and those that do not fill a word wait.

Main statement: `Decoder.tokens_of_pieces`.
-/

namespace PulseSequencer

set_option autoImplicit false

/-! ## The byte that tells what a word is -/

/-- The last of eight bytes is the top byte of their word. -/
theorem wordOfBytes_shiftRight {bs : Bytes} (top : UInt8) (seven : bs.length = 7) :
    wordOfBytes (bs ++ [top]) >>> 56 = top.toUInt64 := by
  have low := ofLittleEndian_lt bs
  have high := top.toNat_lt
  rw [seven] at low
  apply UInt64.toNat_inj.1
  simp only [wordOfBytes, ofLittleEndian_append, seven, ofLittleEndian, UInt64.toNat_shiftRight,
    UInt64.toNat_ofNat', UInt8.toNat_toUInt64, Nat.shiftRight_eq_div_pow]
  have shift : UInt64.toNat 56 % 64 = 56 := rfl
  rw [shift]
  norm_num
  omega

/-! ## Bytes of words that were read -/

theorem bytesOfWord_wordOfBytes {bs : Bytes} (eight : bs.length = 8) :
    bytesOfWord (wordOfBytes bs) = bs := by
  have small : ofLittleEndian bs < 2 ^ 64 := by
    have bound := ofLittleEndian_lt bs
    rw [eight] at bound
    exact bound.trans_eq (by norm_num)
  rw [bytesOfWord, wordOfBytes, UInt64.toNat_ofNat', Nat.mod_eq_of_lt small, ← eight]
  exact littleEndian_ofLittleEndian bs

theorem bytesOfWords_wordsOfBytes {bs : Bytes} (whole : bs.length % 8 = 0) :
    bytesOfWords (wordsOfBytes bs) = bs := by
  induction size : bs.length using Nat.strongRecOn generalizing bs with
  | _ n ih =>
      cases bs with
      | nil => simp [wordsOfBytes, bytesOfWords]
      | cons b rest =>
          rw [List.length_cons] at whole size
          have eight : (b :: rest.take 7).length = 8 := by
            rw [List.length_cons, List.length_take]
            omega
          have shorter : (rest.drop 7).length < n := by
            rw [List.length_drop]
            omega
          have wholeRest : (rest.drop 7).length % 8 = 0 := by
            rw [List.length_drop]
            omega
          rw [wordsOfBytes, bytesOfWords, List.flatMap_cons, bytesOfWord_wordOfBytes eight,
            ← bytesOfWords, ih _ shorter wholeRest rfl, List.cons_append, List.take_append_drop]

/-- **The words of a stream and the bytes behind them are the stream.** -/
theorem bytesOfWords_splitWords (bs : Bytes) :
    bytesOfWords (splitWords bs).1 ++ (splitWords bs).2 = bs := by
  have whole : (bs.take (bs.length / 8 * 8)).length % 8 = 0 := by
    rw [List.length_take]
    omega
  rw [splitWords, bytesOfWords_wordsOfBytes whole, List.take_append_drop]

/-! ## Tokens of a stream -/

namespace Telemetry.Decoder

theorem nextAll_append (d : Decoder) (a b : List UInt64) :
    d.nextAll (a ++ b) =
      (((d.nextAll a).1.nextAll b).1,
        (d.nextAll a).2.1 ++ ((d.nextAll a).1.nextAll b).2.1,
        (d.nextAll a).2.2 ++ ((d.nextAll a).1.nextAll b).2.2) := by
  induction a generalizing d with
  | nil => simp [nextAll]
  | cons word words ih => simp [nextAll, ih]

/-- The decoder with other bytes waiting. -/
def withResidual (d : Decoder) (bytes : Bytes) : Decoder := { d with residual := bytes }

theorem marker_withResidual (d : Decoder) (bytes : Bytes) (word : UInt64) :
    (d.withResidual bytes).marker word =
      ((d.marker word).1.withResidual bytes, (d.marker word).2) := by
  unfold marker
  by_cases ends : word = Variable.endOfRun
  · rw [if_pos ends, if_pos ends]
  · rw [if_neg ends, if_neg ends]
    cases Marker.ofWord? word with
    | none => rfl
    | some m => cases m <;> rfl

theorem first_withResidual (d : Decoder) (bytes : Bytes) (word : UInt64) :
    (d.withResidual bytes).first word =
      ((d.first word).1.withResidual bytes, (d.first word).2) := by
  unfold first
  cases Key.ofWord? word with
  | none => rfl
  | some k =>
      cases k with
      | marker => exact marker_withResidual d bytes word
      | _ => rfl

/-- Bytes that wait play no part in what a word means. -/
theorem next_withResidual (d : Decoder) (bytes : Bytes) (word : UInt64) :
    (d.withResidual bytes).next word =
      ((d.next word).1.withResidual bytes, (d.next word).2) := by
  obtain ⟨phase, residual, overflowTicks⟩ := d
  have first := first_withResidual ⟨.normal, residual, overflowTicks⟩ bytes word
  simp only [withResidual] at first
  cases phase with
  | normal => simp only [next, withResidual, first]
  | scanValue => rfl
  | dependentValue => rfl
  | resultLow channel high =>
      by_cases low : Key.ofWord? word = some .resultLow
      · simp only [next, withResidual, if_pos low]
      · simp only [next, withResidual, if_neg low, first]

theorem nextAll_withResidual (d : Decoder) (bytes : Bytes) (words : List UInt64) :
    (d.withResidual bytes).nextAll words =
      ((d.nextAll words).1.withResidual bytes, (d.nextAll words).2) := by
  induction words generalizing d with
  | nil => rfl
  | cons word words ih => simp only [nextAll, next_withResidual, ih]

/-! ## Words of a piece -/

theorem completeWords_of_residual_eq_nil {d : Decoder} (none : d.residual = []) (bytes : Bytes) :
    d.completeWords bytes = splitWords bytes := by
  rw [completeWords, none]
  rfl

/-- Waiting bytes that are filled up to a word, or not. -/
theorem completeWords_of_residual_ne_nil {d : Decoder} (some' : d.residual ≠ []) (bytes : Bytes) :
    d.completeWords bytes =
      let missing := min (8 - d.residual.length) bytes.length
      let filled := d.residual ++ bytes.take missing
      if filled.length < 8 then ([], filled)
      else (wordOfBytes filled :: (splitWords (bytes.drop missing)).1,
        (splitWords (bytes.drop missing)).2) := by
  rw [completeWords, if_neg (by rwa [List.isEmpty_iff])]

theorem length_completeWords_snd (d : Decoder) (bytes : Bytes) :
    (d.completeWords bytes).2.length < 8 := by
  by_cases none : d.residual = []
  · rw [completeWords_of_residual_eq_nil none]
    exact length_splitWords_snd bytes
  · rw [completeWords_of_residual_ne_nil none]
    dsimp only
    split
    · assumption
    · exact length_splitWords_snd _

/-- **The words are those of the waiting bytes and the piece together.** -/
theorem completeWords_eq {d : Decoder} (short : d.residual.length < 8) (bytes : Bytes) :
    d.completeWords bytes = splitWords (d.residual ++ bytes) := by
  by_cases none : d.residual = []
  · rw [completeWords_of_residual_eq_nil none, none, List.nil_append]
  · rw [completeWords_of_residual_ne_nil none]
    dsimp only
    split
    · rename_i waits
      have all : min (8 - d.residual.length) bytes.length = bytes.length := by
        rw [List.length_append, List.length_take] at waits
        omega
      rw [all, List.take_length] at waits ⊢
      rw [splitWords_of_short waits]
    · rename_i fills
      have eight : (d.residual ++
          bytes.take (min (8 - d.residual.length) bytes.length)).length = 8 := by
        rw [List.length_append, List.length_take] at fills ⊢
        omega
      conv_rhs => rw [← List.take_append_drop (min (8 - d.residual.length) bytes.length) bytes]
      rw [← List.append_assoc, splitWords_append, splitWords_of_length_eq eight]
      rfl

/-- If ever a whole word waited, nothing would be missing to it. -/
theorem completeWords_of_long {d : Decoder} (long : 8 ≤ d.residual.length) (bytes : Bytes) :
    d.completeWords bytes =
      (wordOfBytes d.residual :: (splitWords bytes).1, (splitWords bytes).2) := by
  have some' : d.residual ≠ [] := List.ne_nil_of_length_pos (by omega)
  have none' : min (8 - d.residual.length) bytes.length = 0 := by omega
  rw [completeWords_of_residual_ne_nil some', none']
  dsimp only
  rw [List.take_zero, List.append_nil, List.drop_zero, if_neg (Nat.not_lt.2 long)]

theorem feed_eq (d : Decoder) (bytes : Bytes) :
    d.feed bytes =
      ((d.nextAll (d.completeWords bytes).1).1.withResidual (d.completeWords bytes).2,
        (d.nextAll (d.completeWords bytes).1).2) := rfl

/-- The words of two pieces are those of the first, and those of the second behind it. -/
theorem completeWords_append (d : Decoder) (a b : Bytes) :
    d.completeWords (a ++ b) =
      ((d.completeWords a).1 ++ ((d.feed a).1.completeWords b).1,
        ((d.feed a).1.completeWords b).2) := by
  have onward : (d.feed a).1.completeWords b = splitWords ((d.completeWords a).2 ++ b) :=
    completeWords_eq (length_completeWords_snd d a) b
  rw [onward]
  rcases Nat.lt_or_ge d.residual.length 8 with short | long
  · rw [completeWords_eq short, completeWords_eq short, ← List.append_assoc, splitWords_append]
  · rw [completeWords_of_long long, completeWords_of_long long, splitWords_append a b,
      List.cons_append]

/-! ## Tokens of a piece -/

/-- **Tokens do not depend on where the stream is cut**, as long as nothing happens to
the decoder between the pieces. -/
theorem feed_append (d : Decoder) (a b : Bytes) :
    d.feed (a ++ b) =
      (((d.feed a).1.feed b).1,
        (d.feed a).2.1 ++ ((d.feed a).1.feed b).2.1,
        (d.feed a).2.2 ++ ((d.feed a).1.feed b).2.2) := by
  rw [feed_eq d (a ++ b), completeWords_append, nextAll_append, feed_eq (d.feed a).1 b]
  simp only [feed_eq d a, nextAll_withResidual]
  rfl

/-- Whole words, to a decoder that waits for the end of none. -/
theorem completeWords_bytesOfWords {d : Decoder} (none : d.residual = []) (words : List UInt64) :
    d.completeWords (bytesOfWords words) = (words, []) := by
  rw [completeWords_of_residual_eq_nil none, splitWords_bytesOfWords]

theorem length_residual_feed (d : Decoder) (bytes : Bytes) :
    (d.feed bytes).1.residual.length < 8 :=
  length_completeWords_snd d bytes

/-- Bytes that complete no word wait. -/
theorem feed_of_short {d : Decoder} {bytes : Bytes} (short : (d.residual ++ bytes).length < 8) :
    d.feed bytes = (d.withResidual (d.residual ++ bytes), [], []) := by
  have waits : d.residual.length < 8 := by
    rw [List.length_append] at short
    omega
  rw [feed_eq, completeWords_eq waits, splitWords_of_short short]
  rfl

/-- Bytes that complete the waiting word, with the given top byte. -/
def completion (d : Decoder) (top : UInt8) : Bytes :=
  List.replicate (7 - d.residual.length) 0 ++ [top]

/-- Any word key can come next, whatever bytes wait. -/
theorem feed_completion (d : Decoder) (top : UInt8) (short : d.residual.length < 8) :
    ∃ word : UInt64, word >>> 56 = top.toUInt64 ∧
      ∀ e : Decoder, e.residual = d.residual →
        (e.feed (d.completion top)).2.1 = (e.next word).2.1.toList := by
  have seven : (d.residual ++ List.replicate (7 - d.residual.length) 0).length = 7 := by
    simp only [List.length_append, List.length_replicate]
    omega
  refine ⟨wordOfBytes (d.residual ++ List.replicate (7 - d.residual.length) 0 ++ [top]),
    wordOfBytes_shiftRight top seven, fun e same => ?_⟩
  have eight : (d.residual ++ d.completion top).length = 8 := by
    simp only [completion, List.length_append, List.length_replicate, List.length_singleton]
    omega
  rw [feed_eq, completeWords_eq (same ▸ short), same, splitWords_of_length_eq eight]
  simp [nextAll, completion]

/-! ## Pieces of any size -/

/-- Takes pieces of the stream in order. -/
def feedAll (d : Decoder) : List Bytes → Decoder × List Token × List Notice
  | [] => (d, [], [])
  | piece :: pieces =>
      let (d, tokens, notices) := d.feed piece
      let (d, others, more) := d.feedAll pieces
      (d, tokens ++ others, notices ++ more)

/-- The decoders that pieces of a stream lead to. -/
inductive Reached : Decoder → Prop
  | unused : Reached {}
  | feed {d : Decoder} (reached : Reached d) (bytes : Bytes) : Reached (d.feed bytes).1

variable {d : Decoder}

/-- Fewer bytes wait than a word has. -/
theorem Reached.short (reached : Reached d) : d.residual.length < 8 := by
  cases reached with
  | unused => decide
  | feed _ bytes => exact length_residual_feed _ bytes

/-- Nothing comes of nothing, as no complete word waits. -/
theorem feed_nil (short : d.residual.length < 8) : d.feed [] = (d, [], []) := by
  rw [feed_of_short (by rwa [List.append_nil]), List.append_nil]
  rfl

theorem feedAll_eq_feed (short : d.residual.length < 8) (pieces : List Bytes) :
    d.feedAll pieces = d.feed pieces.flatten := by
  induction pieces generalizing d with
  | nil => rw [List.flatten_nil, feed_nil short, feedAll]
  | cons piece rest ih =>
      have onward := ih (length_residual_feed d piece)
      rw [List.flatten_cons, feed_append, feedAll]
      dsimp only
      rw [onward]

/-- **Pieces of a stream are the stream.**  Whatever was fed before and wherever the bytes
are cut, the pieces lead to the same decoder, the same tokens in their order and the same
notices as all bytes at once.  They are what the decoder makes of the words that the
waiting bytes and the stream hold; the bytes behind these words wait, and are fewer than
a word has. -/
theorem tokens_of_pieces (reached : Reached d) (pieces : List Bytes) :
    d.feedAll pieces = d.feed pieces.flatten ∧
      ∃ (words : List UInt64) (rest : Bytes),
        d.residual ++ pieces.flatten = bytesOfWords words ++ rest ∧ rest.length < 8 ∧
        d.feedAll pieces = ({ (d.nextAll words).1 with residual := rest }, (d.nextAll words).2) := by
  have same := feedAll_eq_feed reached.short pieces
  refine ⟨same, (splitWords (d.residual ++ pieces.flatten)).1,
    (splitWords (d.residual ++ pieces.flatten)).2, (bytesOfWords_splitWords _).symm,
    length_splitWords_snd _, ?_⟩
  rw [same, feed_eq, completeWords_eq reached.short]
  rfl

/-- A decoder in the middle of a result: behind its high half and three bytes of the low
one. -/
def halfway : Decoder :=
  (({} : Decoder).feed (bytesOfWord (channelWord .resultHigh 2 0xffff) ++ [0xfb, 0xff, 0xff])).1

theorem tokens_of_pieces_halfway :
    let pieces : List Bytes :=
      [[], [0xff, 0xff], [0xff, 0, 0x51] ++ (bytesOfWord (Marker.overflow.word 0)).take 7, [],
        (bytesOfWord (Marker.overflow.word 0)).drop 7 ++ bytesOfWord (channelWord .timestamp 1 3),
        [0xff]]
    Reached halfway ∧ halfway.phase = .resultLow 2 0xffff ∧ halfway.residual = [0xfb, 0xff, 0xff] ∧
      (halfway.feedAll pieces).2.1 = [.result 2 (-5), .timestamp 1 0x5000000000f] ∧
      halfway.feedAll pieces = halfway.feed pieces.flatten ∧
      ∃ (words : List UInt64) (rest : Bytes),
        halfway.residual ++ pieces.flatten = bytesOfWords words ++ rest ∧ rest.length < 8 ∧
        halfway.feedAll pieces =
          ({ (halfway.nextAll words).1 with residual := rest }, (halfway.nextAll words).2) :=
  have reached : Reached halfway := .feed .unused _
  ⟨reached, by decide +kernel, by decide +kernel, by with_unfolding_all rfl,
    tokens_of_pieces reached _⟩

end Telemetry.Decoder

end PulseSequencer
