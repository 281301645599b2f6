import PulseSequencer.Proofs.Telemetry.Decoding
import PulseSequencer.Telemetry.Record

/-
# PulseSequencer.Proofs.Telemetry.Cuts -- where a stream of telemetry may be cut

All of a call is decoded before its first token is accounted for.  The end of a run
takes the decoder back to the state of a new run, but only behind the call: words of
the next run that came with the same call were read with the clock overflows of the
old one, and what they announced or counted is then lost.  So records do depend on
how the stream is cut.

A cut is harmless for every continuation exactly if the call before it ends no run,
or leaves the decoder as a new run finds it (`harmless_iff`).  A stream in which no word
follows the end of a run may be cut anywhere (`harmlessCuts_of_singleRun`).

Main statement: `records_of_pieces`.
-/

namespace PulseSequencer.Telemetry

set_option autoImplicit false

/-! ## Tokens and the record that is being filled -/

/-- Whether a token ends the run. -/
def Token.endsRun : Token → Bool
  | .endOfRun | .exitcode _ => true
  | _ => false

namespace Record

/-- What a token makes of the record that is being filled, and the record that it
completes. -/
def take (r : Record) (offset : UInt64) : Token → Record × Option Record
  | .endOfRun => ({}, some { r with isFinal := true, exitcode := some Variable.endOfRun })
  | .exitcode code => ({}, some { r with isFinal := true, exitcode := some code })
  | .scanValue value =>
      if r.scanValue.isSome then ({ scanValue := some value }, some r)
      else ({ r with scanValue := some value }, none)
  | token => (r.add offset token, none)

/-- What tokens make of the record that is being filled, and the records that they
complete. -/
def takeAll (r : Record) (offset : UInt64) : List Token → Record × List Record
  | [] => (r, [])
  | token :: tokens =>
      (((r.take offset token).1.takeAll offset tokens).1,
        (r.take offset token).2.toList ++ ((r.take offset token).1.takeAll offset tokens).2)

theorem takeAll_append (r : Record) (offset : UInt64) (a b : List Token) :
    r.takeAll offset (a ++ b) =
      (((r.takeAll offset a).1.takeAll offset b).1,
        (r.takeAll offset a).2 ++ ((r.takeAll offset a).1.takeAll offset b).2) := by
  induction a generalizing r with
  | nil => rfl
  | cons token tokens ih => simp [takeAll, ih]

end Record

namespace Assembler

/-- Comparing the clocks changes nothing but the time of the last comparison. -/
theorem checkDrift_fst (a : Assembler) :
    ∃ time, a.checkDrift.1 = { a with lastDriftCheck := time } := by
  unfold checkDrift
  extract_lets recently
  cases recently with
  | true => exact ⟨a.lastDriftCheck, rfl⟩
  | false => exact ⟨some a.hostTime, rfl⟩

theorem apply_scanValue (a : Assembler) (value : UInt64) :
    a.apply (.scanValue value) =
      if a.current.scanValue.isSome then
        ({ a with current := { scanValue := some value } }, some a.current, [])
      else ({ a with current := { a.current with scanValue := some value } }, none, []) := rfl

/-- A tick may make the drift of the clock checked. -/
theorem apply_timeTick (a : Assembler) (channel : UInt8) (time : UInt64) :
    ∃ last notices, a.apply (.timeTick channel time) =
      ({ a with
          current := a.current.add a.clockOffset (.timeTick channel time)
          lastDriftCheck := last }, none, notices) := by
  obtain ⟨last, kept⟩ :=
    checkDrift_fst { a with current := a.current.add a.clockOffset (.timeTick channel time) }
  exact ⟨last, _, congrArg (·, none, _) kept⟩

/-- The decoder after a token was accounted for. -/
theorem apply_decoder (a : Assembler) (token : Token) :
    (a.apply token).1.decoder =
      if token.endsRun then a.decoder.restartRun else a.decoder := by
  cases token with
  | scanValue value =>
      rw [apply_scanValue]
      split <;> rfl
  | timeTick channel time =>
      obtain ⟨last, notices, applied⟩ := apply_timeTick a channel time
      rw [applied]
      rfl
  | _ => rfl

theorem apply_clockOffset (a : Assembler) (token : Token) :
    (a.apply token).1.clockOffset = a.clockOffset := by
  cases token with
  | scanValue value =>
      rw [apply_scanValue]
      split <;> rfl
  | timeTick channel time =>
      obtain ⟨last, notices, applied⟩ := apply_timeTick a channel time
      rw [applied]
  | _ => rfl

/-- Neither the decoder nor the host's clock has a part in the records. -/
theorem apply_records (a : Assembler) (token : Token) :
    ((a.apply token).1.current, (a.apply token).2.1) = a.current.take a.clockOffset token := by
  cases token with
  | scanValue value =>
      rw [apply_scanValue, Record.take]
      split <;> rfl
  | timeTick channel time =>
      obtain ⟨last, notices, applied⟩ := apply_timeTick a channel time
      rw [applied]
      rfl
  | _ => rfl

theorem applyAll_records (a : Assembler) (tokens : List Token) :
    ((a.applyAll tokens).1.current, (a.applyAll tokens).2.1) =
      a.current.takeAll a.clockOffset tokens := by
  induction tokens generalizing a with
  | nil => rfl
  | cons token tokens ih =>
      obtain ⟨current, record⟩ := Prod.ext_iff.1 (apply_records a token)
      obtain ⟨last, records⟩ := Prod.ext_iff.1 (ih (a.apply token).1)
      simp only [apply_clockOffset] at current record last records
      simp only [applyAll, Record.takeAll, last, records, current, record]

theorem applyAll_clockOffset (a : Assembler) (tokens : List Token) :
    (a.applyAll tokens).1.clockOffset = a.clockOffset := by
  induction tokens generalizing a with
  | nil => rfl
  | cons token tokens ih => simp only [applyAll, ih, apply_clockOffset]

theorem applyAll_decoder (a : Assembler) (tokens : List Token) :
    (a.applyAll tokens).1.decoder =
      if tokens.any Token.endsRun then a.decoder.restartRun else a.decoder := by
  induction tokens generalizing a with
  | nil => rfl
  | cons token tokens ih =>
      simp only [applyAll, ih, apply_decoder, List.any_cons]
      by_cases ends : token.endsRun = true
      · simp [ends, Decoder.restartRun]
      · simp [ends]

/-! ## Calls -/

/-- The tokens of a call. -/
def tokensOf (a : Assembler) (bytes : Bytes) : List Token := (a.decoder.feed bytes).2.1

/-- Words for a decoder that waits for none. -/
theorem tokensOf_bytesOfWords {a : Assembler} (start : a.decoder = {}) (words : List UInt64) :
    a.tokensOf (bytesOfWords words) = (({} : Decoder).nextAll words).2.1 := by
  rw [tokensOf, start, Decoder.feed_eq, Decoder.completeWords_bytesOfWords rfl]

theorem feed_records (a : Assembler) (bytes : Bytes) :
    ((a.feed bytes).1.current, (a.feed bytes).2.1) =
      a.current.takeAll a.clockOffset (a.tokensOf bytes) :=
  applyAll_records { a with decoder := (a.decoder.feed bytes).1 } _

theorem feed_clockOffset (a : Assembler) (bytes : Bytes) :
    (a.feed bytes).1.clockOffset = a.clockOffset :=
  applyAll_clockOffset { a with decoder := (a.decoder.feed bytes).1 } _

theorem feed_decoder (a : Assembler) (bytes : Bytes) :
    (a.feed bytes).1.decoder =
      if (a.tokensOf bytes).any Token.endsRun then (a.decoder.feed bytes).1.restartRun
      else (a.decoder.feed bytes).1 :=
  applyAll_decoder { a with decoder := (a.decoder.feed bytes).1 } _

/-- A piece of the stream, and the host's clock when it comes. -/
structure Piece where
  hostTime : UInt64
  bytes : Bytes

/-- Feeds one piece. -/
def feedPiece (a : Assembler) (piece : Piece) : Assembler × List Record :=
  let result := { a with hostTime := piece.hostTime }.feed piece.bytes
  (result.1, result.2.1)

/-- Feeds pieces in order: the assembler behind them, and all records that they
complete. -/
def feedPieces (a : Assembler) : List Piece → Assembler × List Record
  | [] => (a, [])
  | piece :: pieces =>
      ((feedPieces (a.feedPiece piece).1 pieces).1,
        (a.feedPiece piece).2 ++ (feedPieces (a.feedPiece piece).1 pieces).2)

/-- What a subscriber sees: the record that is being filled and the completed ones. -/
def seen (result : Assembler × List Record) : Record × List Record :=
  (result.1.current, result.2)

theorem seen_feedPiece (a : Assembler) (piece : Piece) :
    seen (a.feedPiece piece) = a.current.takeAll a.clockOffset (a.tokensOf piece.bytes) :=
  feed_records { a with hostTime := piece.hostTime } piece.bytes

theorem feedPiece_clockOffset (a : Assembler) (piece : Piece) :
    (a.feedPiece piece).1.clockOffset = a.clockOffset :=
  feed_clockOffset { a with hostTime := piece.hostTime } piece.bytes

theorem feedPiece_decoder (a : Assembler) (piece : Piece) :
    (a.feedPiece piece).1.decoder =
      if (a.tokensOf piece.bytes).any Token.endsRun then
        (a.decoder.feed piece.bytes).1.restartRun
      else (a.decoder.feed piece.bytes).1 :=
  feed_decoder { a with hostTime := piece.hostTime } piece.bytes

/-! ## Harmless cuts -/

/-- Whether the call with these bytes ends a run. -/
def EndsRun (a : Assembler) (bytes : Bytes) : Prop :=
  (a.tokensOf bytes).any Token.endsRun = true

/-- A cut behind these bytes loses nothing: the call ends no run, or it leaves the
decoder as a new run finds it. -/
def Harmless (a : Assembler) (bytes : Bytes) : Prop :=
  a.EndsRun bytes →
    (a.decoder.feed bytes).1.phase = .normal ∧ (a.decoder.feed bytes).1.overflowTicks = 0

/-- Every cut between the pieces is harmless, or no word is completed behind it. -/
def HarmlessCuts (a : Assembler) : List Piece → Prop
  | [] => True
  | piece :: pieces =>
      (a.Harmless piece.bytes ∨
        ((a.decoder.feed piece.bytes).1.residual ++ pieces.flatMap Piece.bytes).length < 8) ∧
      HarmlessCuts (a.feedPiece piece).1 pieces

instance (a : Assembler) (bytes : Bytes) : Decidable (a.Harmless bytes) :=
  inferInstanceAs (Decidable ((_ = true) → _))

instance decidableHarmlessCuts : ∀ (a : Assembler) (pieces : List Piece),
    Decidable (a.HarmlessCuts pieces)
  | _, [] => .isTrue trivial
  | a, piece :: pieces =>
      have := decidableHarmlessCuts (a.feedPiece piece).1 pieces
      inferInstanceAs (Decidable (_ ∧ _))

/-- The decoder behind a harmless call is the one that decoded the call. -/
theorem feedPiece_decoder_of_harmless {a : Assembler} {piece : Piece}
    (harmless : a.Harmless piece.bytes) :
    (a.feedPiece piece).1.decoder = (a.decoder.feed piece.bytes).1 := by
  rw [feedPiece_decoder]
  split
  · rename_i ends
    obtain ⟨normal, none⟩ := harmless ends
    rw [Decoder.restartRun, ← normal, ← none]
  · rfl

theorem tokensOf_append (a : Assembler) (first rest : Bytes) :
    a.tokensOf (first ++ rest) =
      a.tokensOf first ++ ((a.decoder.feed first).1.feed rest).2.1 := by
  simp only [tokensOf, Decoder.feed_append]

/-- Behind a cut that is harmless, or behind which no word is completed, the same
tokens come as without it. -/
theorem tokensOf_feedPiece {a : Assembler} {piece : Piece} {rest : Bytes}
    (harmless : a.Harmless piece.bytes ∨
      ((a.decoder.feed piece.bytes).1.residual ++ rest).length < 8) :
    (a.feedPiece piece).1.tokensOf rest = ((a.decoder.feed piece.bytes).1.feed rest).2.1 := by
  rcases harmless with harmless | short
  · rw [tokensOf, feedPiece_decoder_of_harmless harmless]
  · have kept : (a.feedPiece piece).1.decoder.residual =
        (a.decoder.feed piece.bytes).1.residual := by
      rw [feedPiece_decoder]
      split <;> rfl
    rw [Decoder.feed_of_short short, tokensOf, Decoder.feed_of_short (by rwa [kept])]

theorem seen_feedPieces_cons (a : Assembler) (piece : Piece) (pieces : List Piece) :
    seen (a.feedPieces (piece :: pieces)) =
      ((seen (feedPieces (a.feedPiece piece).1 pieces)).1,
        (seen (a.feedPiece piece)).2 ++ (seen (feedPieces (a.feedPiece piece).1 pieces)).2) :=
  rfl

theorem seen_feedPieces_singleton (a : Assembler) (piece : Piece) :
    seen (a.feedPieces [piece]) = seen (a.feedPiece piece) := by
  simp [feedPieces, seen]

/-- **A stream may be cut wherever the cuts are harmless**: the records are those of a
single call with all of its bytes. -/
theorem seen_feedPieces_of_harmlessCuts (a : Assembler) (piece : Piece) (pieces : List Piece)
    (hostTime : UInt64) (harmless : a.HarmlessCuts (piece :: pieces)) :
    seen (a.feedPieces (piece :: pieces)) =
      seen (a.feedPiece ⟨hostTime, piece.bytes ++ pieces.flatMap Piece.bytes⟩) := by
  induction pieces generalizing a piece with
  | nil => simp [seen_feedPieces_singleton, seen_feedPiece]
  | cons next pieces ih =>
      obtain ⟨cut, rest⟩ := harmless
      have current : (a.feedPiece piece).1.current =
          (a.current.takeAll a.clockOffset (a.tokensOf piece.bytes)).1 :=
        congrArg Prod.fst (seen_feedPiece a piece)
      have tokens := tokensOf_feedPiece cut
      rw [List.flatMap_cons] at tokens
      rw [seen_feedPieces_cons, ih _ next rest]
      simp only [seen_feedPiece, feedPiece_clockOffset, current, List.flatMap_cons, tokens]
      rw [tokensOf_append, Record.takeAll_append]

/-! ## Cuts that do harm -/

/-- If a cut makes no difference, then neither does the word behind it, whether the
decoder reads it as it is or as that of a new run. -/
theorem next_of_agree {a : Assembler} {piece : Piece} (ends : a.EndsRun piece.bytes)
    (agree : ∀ (next : Piece) (hostTime : UInt64),
      seen (a.feedPieces [piece, next]) =
        seen (a.feedPiece ⟨hostTime, piece.bytes ++ next.bytes⟩)) (top : UInt8) :
    ∃ word : UInt64, word >>> 56 = top.toUInt64 ∧
      let d := (a.decoder.feed piece.bytes).1
      let r := (a.feedPiece piece).1.current
      r.takeAll a.clockOffset (d.restartRun.next word).2.1.toList =
        r.takeAll a.clockOffset (d.next word).2.1.toList := by
  obtain ⟨word, key, tokens⟩ := Decoder.feed_completion (a.decoder.feed piece.bytes).1 top
    (Decoder.length_residual_feed _ _)
  refine ⟨word, key, ?_⟩
  have restarted : (a.feedPiece piece).1.decoder = (a.decoder.feed piece.bytes).1.restartRun := by
    rw [feedPiece_decoder]
    exact if_pos ends
  obtain ⟨current, records⟩ := Prod.ext_iff.1 (seen_feedPiece a piece)
  have same := agree ⟨0, (a.decoder.feed piece.bytes).1.completion top⟩ 0
  rw [seen_feedPieces_cons, seen_feedPieces_singleton] at same
  simp only [seen_feedPiece, feedPiece_clockOffset, tokensOf_append, Record.takeAll_append] at same
  rw [tokensOf, restarted, tokens (a.decoder.feed piece.bytes).1.restartRun rfl,
    tokens (a.decoder.feed piece.bytes).1 rfl] at same
  have current' : (a.feedPiece piece).1.current =
      (a.current.takeAll a.clockOffset (a.tokensOf piece.bytes)).1 := current
  obtain ⟨filling, completed⟩ := Prod.ext_iff.1 same
  rw [← current'] at filling completed
  exact Prod.ext filling (List.append_cancel_left completed)

theorem addToWindow_injective {x y : UInt64} {windows : List (List UInt64)}
    (h : addToWindow x windows = addToWindow y windows) : x = y := by
  unfold addToWindow at h
  split at h
  · simpa using List.append_cancel_left h
  · simpa using h

/-- The entry of the channel that was changed is the changed one. -/
theorem onChannel_inj {α : Type} {empty : α} {f g : α → α} {channel : Nat} {items : List α}
    (h : onChannel empty f channel items = onChannel empty g channel items) :
    f (items[channel]?.getD empty) = g (items[channel]?.getD empty) := by
  have entries := congrArg (·[channel]?) h
  simpa only [getElem?_onChannel_self, Option.some.injEq] using entries

theorem mul_tickLength_injective {x y : UInt64} (h : x * tickLength = y * tickLength) : x = y := by
  -- five has an inverse modulo a power of two
  have scaled := congrArg (· * (0xcccccccccccccccd : UInt64)) h
  have inverse : tickLength * 0xcccccccccccccccd = 1 := by decide
  simpa only [UInt64.mul_assoc, inverse, UInt64.mul_one] using scaled

theorem Key.ofWord?_eq {word : UInt64} {k : Key} (key : word >>> 56 = k.code) :
    Key.ofWord? word = some k := by
  rw [Key.ofWord?, key]
  cases k <;> decide

section

variable (r : Record) (offset : UInt64) {d : Decoder} {word : UInt64}

/-- A scan value is not what a count in its place is. -/
theorem takeAll_scanValue_ne (phase : d.phase = .scanValue)
    (key : Key.ofWord? word = some .count) :
    r.takeAll offset (d.restartRun.next word).2.1.toList ≠
      r.takeAll offset (d.next word).2.1.toList := by
  intro same
  simp only [Decoder.next, phase, Decoder.restartRun, Decoder.first, key, Option.toList,
    Record.takeAll, Record.take, Record.add] at same
  cases known : r.scanValue with
  | none =>
      have filling := congrArg (·.1.scanValue) same
      simp [known] at filling
  | some value =>
      have completed := congrArg (·.2.length) same
      simp [known] at completed

/-- A dependent value is not what a count in its place is. -/
theorem takeAll_dependentValue_ne (phase : d.phase = .dependentValue)
    (key : Key.ofWord? word = some .count) :
    r.takeAll offset (d.restartRun.next word).2.1.toList ≠
      r.takeAll offset (d.next word).2.1.toList := by
  intro same
  have filling := congrArg (·.1.dependentValues.length) same
  simp [Decoder.next, phase, Decoder.restartRun, Decoder.first, key, Record.takeAll, Record.take,
    Record.add] at filling

/-- Without its high half, the low half of a result is nothing. -/
theorem takeAll_result_ne {channel : UInt8} {high : UInt16}
    (phase : d.phase = .resultLow channel high) (key : Key.ofWord? word = some .resultLow) :
    r.takeAll offset (d.restartRun.next word).2.1.toList ≠
      r.takeAll offset (d.next word).2.1.toList := by
  intro same
  have results := congrArg (·.1.results[channel.toNat]?) same
  simp only [Decoder.next, phase, Decoder.restartRun, Decoder.first, key, if_true, Option.toList,
    Record.takeAll, Record.take, Record.add, addOn, getElem?_onChannel_self] at results
  have lengths := congrArg (fun entry => (entry.getD []).length) results
  simp at lengths

/-- Times tell how many overflows the decoder has counted. -/
theorem overflowTicks_of_takeAll_eq (normal : d.phase = .normal)
    (key : Key.ofWord? word = some .timestamp)
    (same : r.takeAll offset (d.restartRun.next word).2.1.toList =
      r.takeAll offset (d.next word).2.1.toList) : d.overflowTicks = 0 := by
  have windows := congrArg (·.1.timestamps) same
  simp only [Decoder.next, normal, Decoder.restartRun, Decoder.first, key, Option.toList,
    Record.takeAll, Record.take, Record.add] at windows
  have ticks := mul_tickLength_injective (addToWindow_injective (onChannel_inj windows))
  simpa using ticks.symm

end

/-- **Exactly the harmless cuts make no difference**, whatever comes behind them. -/
theorem harmless_iff (a : Assembler) (piece : Piece) :
    (∀ (next : Piece) (hostTime : UInt64),
      seen (a.feedPieces [piece, next]) =
        seen (a.feedPiece ⟨hostTime, piece.bytes ++ next.bytes⟩)) ↔ a.Harmless piece.bytes := by
  constructor
  · intro agree ends
    have normal : (a.decoder.feed piece.bytes).1.phase = .normal := by
      cases phase : (a.decoder.feed piece.bytes).1.phase with
      | normal => rfl
      | scanValue =>
          obtain ⟨word, key, same⟩ := next_of_agree ends agree 0x01
          exact absurd same (takeAll_scanValue_ne _ _ phase (Key.ofWord?_eq (k := .count) key))
      | dependentValue =>
          obtain ⟨word, key, same⟩ := next_of_agree ends agree 0x01
          exact absurd same (takeAll_dependentValue_ne _ _ phase (Key.ofWord?_eq (k := .count) key))
      | resultLow channel high =>
          obtain ⟨word, key, same⟩ := next_of_agree ends agree 0x51
          exact absurd same (takeAll_result_ne _ _ phase (Key.ofWord?_eq (k := .resultLow) key))
    obtain ⟨word, key, same⟩ := next_of_agree ends agree 0x02
    exact ⟨normal, overflowTicks_of_takeAll_eq _ _ normal (Key.ofWord?_eq (k := .timestamp) key) same⟩
  · intro harmless next hostTime
    have waiting := Decoder.length_residual_feed (a.feedPiece piece).1.decoder next.bytes
    have cuts : a.HarmlessCuts [piece, next] :=
      ⟨.inl harmless, .inr (by simpa using waiting), trivial⟩
    simpa using seen_feedPieces_of_harmlessCuts a piece [next] hostTime cuts

/-! ## Streams of a single run -/

/-- No word of the stream follows the end of a run. -/
def SingleRun (a : Assembler) (stream : Bytes) : Prop :=
  let words := (a.decoder.completeWords stream).1
  ∀ n < words.length, (a.decoder.nextAll (words.take n)).2.1.any Token.endsRun = false

instance (a : Assembler) (stream : Bytes) : Decidable (a.SingleRun stream) :=
  inferInstanceAs (Decidable (∀ n < _, _ = false))

theorem singleRun_append {a : Assembler} {stream : Bytes} {before behind : List UInt64}
    (single : a.SingleRun stream)
    (words : (a.decoder.completeWords stream).1 = before ++ behind)
    (more : behind ≠ []) : (a.decoder.nextAll before).2.1.any Token.endsRun = false := by
  have shorter : before.length < (before ++ behind).length := by
    rw [List.length_append]
    exact Nat.lt_add_of_pos_right (List.length_pos_iff.2 more)
  have ends := single before.length (by rwa [words])
  rwa [words, List.take_left' rfl] at ends

/-- Pieces that complete no word may be cut anywhere. -/
theorem harmlessCuts_of_short (a : Assembler) (pieces : List Piece)
    (short : (a.decoder.residual ++ pieces.flatMap Piece.bytes).length < 8) :
    a.HarmlessCuts pieces := by
  induction pieces generalizing a with
  | nil => trivial
  | cons piece pieces ih =>
      rw [List.flatMap_cons, ← List.append_assoc] at short
      have waits : (a.decoder.residual ++ piece.bytes).length < 8 := by
        rw [List.length_append] at short
        omega
      have tokens : a.tokensOf piece.bytes = [] := by rw [tokensOf, Decoder.feed_of_short waits]
      have decoder : (a.feedPiece piece).1.decoder =
          a.decoder.withResidual (a.decoder.residual ++ piece.bytes) := by
        rw [feedPiece_decoder, tokens, Decoder.feed_of_short waits]
        rfl
      refine ⟨.inr ?_, ih _ ?_⟩
      · rw [Decoder.feed_of_short waits]
        exact short
      · rw [decoder]
        exact short

/-- A single run may be cut anywhere. -/
theorem harmlessCuts_of_singleRun (a : Assembler) (pieces : List Piece)
    (single : a.SingleRun (pieces.flatMap Piece.bytes)) : a.HarmlessCuts pieces := by
  induction pieces generalizing a with
  | nil => trivial
  | cons piece pieces ih =>
      obtain ⟨first, hfirst⟩ : ∃ ws, ws = (a.decoder.completeWords piece.bytes).1 := ⟨_, rfl⟩
      obtain ⟨rest, hrest⟩ : ∃ ws, ws = ((a.decoder.feed piece.bytes).1.completeWords
          (pieces.flatMap Piece.bytes)).1 := ⟨_, rfl⟩
      have words : (a.decoder.completeWords ((piece :: pieces).flatMap Piece.bytes)).1 =
          first ++ rest := by
        rw [List.flatMap_cons, Decoder.completeWords_append, hfirst, hrest]
      by_cases last : rest = []
      · rw [Decoder.completeWords_eq (Decoder.length_residual_feed _ _)] at hrest
        have short := (splitWords_fst_eq_nil_iff _).1 (hrest.symm.trans last)
        have residual : (a.feedPiece piece).1.decoder.residual =
            (a.decoder.feed piece.bytes).1.residual := by
          rw [feedPiece_decoder]
          split <;> rfl
        exact ⟨.inr short, harmlessCuts_of_short _ _ (by rwa [residual])⟩
      · have goesOn : ¬a.EndsRun piece.bytes := by
          rw [EndsRun, Bool.not_eq_true, tokensOf, Decoder.feed_eq, ← hfirst]
          exact singleRun_append single words last
        have harmless : a.Harmless piece.bytes := fun ends => absurd ends goesOn
        refine ⟨.inl harmless, ih _ ?_⟩
        rw [SingleRun, feedPiece_decoder_of_harmless harmless, ← hrest]
        intro n lt
        have split : first ++ rest = first ++ rest.take n ++ rest.drop n := by
          rw [List.append_assoc, List.take_append_drop]
        have whole := singleRun_append single (words.trans split)
          (mt List.drop_eq_nil_iff.1 (Nat.not_le_of_lt lt))
        rw [Decoder.nextAll_append, List.any_append, Bool.or_eq_false_iff] at whole
        rw [Decoder.feed_eq, Decoder.nextAll_withResidual, ← hfirst]
        exact whole.2

end Assembler

open Telemetry.Assembler

/-- **Where records depend on the cuts of a stream.**  A stream that comes in pieces,
with no cut that loses something, gives the records of a single call.  A cut is of
this kind for every continuation exactly if the call before it ends no run or leaves
the decoder as a new run finds it; and a stream in which no word follows the end of a
run has no other cuts. -/
theorem records_of_pieces (a : Assembler) (piece : Piece) (pieces : List Piece)
    (hostTime : UInt64) :
    (a.HarmlessCuts (piece :: pieces) →
      seen (a.feedPieces (piece :: pieces)) =
        seen (a.feedPiece ⟨hostTime, piece.bytes ++ pieces.flatMap Piece.bytes⟩)) ∧
    ((∀ (next : Piece) (nextTime : UInt64),
      seen (a.feedPieces [piece, next]) =
        seen (a.feedPiece ⟨nextTime, piece.bytes ++ next.bytes⟩)) ↔ a.Harmless piece.bytes) ∧
    (a.SingleRun (piece.bytes ++ pieces.flatMap Piece.bytes) →
      seen (a.feedPieces (piece :: pieces)) =
        seen (a.feedPiece ⟨hostTime, piece.bytes ++ pieces.flatMap Piece.bytes⟩)) :=
  ⟨seen_feedPieces_of_harmlessCuts a piece pieces hostTime, harmless_iff a piece,
    fun single => seen_feedPieces_of_harmlessCuts a piece pieces hostTime
      (harmlessCuts_of_singleRun a (piece :: pieces) single)⟩

/-- Two runs without overflows, cut between them and within a scan value. -/
def twoRuns : List Piece :=
  [⟨0, bytesOfWords ((Item.count 0 5).words ++ Item.endOfRun.words)⟩,
   ⟨1, bytesOfWords (Item.scanValue 3).words⟩]

/-- A run with an overflow, cut within the word that ends it. -/
def longRun : List Piece :=
  [⟨0, bytesOfWords (Item.overflow.words ++ (Item.timestamp 0 7).words) ++ [0xff, 0xff, 0xff]⟩,
   ⟨1, [0xff, 0xff, 0xff, 0xff, 0xff]⟩]

theorem records_of_pieces_of_runs :
    (HarmlessCuts {} twoRuns ∧
      seen (feedPieces {} twoRuns) = seen (feedPiece {} ⟨0, twoRuns.flatMap Piece.bytes⟩)) ∧
    (SingleRun {} (longRun.flatMap Piece.bytes) ∧
      seen (feedPieces {} longRun) = seen (feedPiece {} ⟨0, longRun.flatMap Piece.bytes⟩)) := by
  have harmless : HarmlessCuts {} twoRuns := by decide +kernel
  have single : SingleRun {} (longRun.flatMap Piece.bytes) := by decide +kernel
  exact ⟨⟨harmless, (records_of_pieces {} _ _ 0).1 harmless⟩,
    ⟨single, (records_of_pieces {} _ _ 0).2.2 single⟩⟩

/-- A run with a clock overflow, and the first timestamp of the next run. -/
def overflowingRun : Bytes := bytesOfWords (Item.overflow.words ++ Item.endOfRun.words)

def nextTimestamp : Bytes := bytesOfWords (Item.timestamp 0 7).words

/-- In one call the timestamp of the second run counts the overflow of the first. -/
theorem records_depend_on_cuts :
    seen (feedPieces {} [⟨0, overflowingRun⟩, ⟨0, nextTimestamp⟩]) ≠
      seen (feedPiece {} ⟨0, overflowingRun ++ nextTimestamp⟩) := by
  intro same
  have times := congrArg (·.1.timestamps) same
  revert times
  decide +kernel

end PulseSequencer.Telemetry
