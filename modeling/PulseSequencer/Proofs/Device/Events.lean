import PulseSequencer.Proofs.Device.Capture

/-
# PulseSequencer.Proofs.Device.Events -- events on the wire, and behind stray bytes

The kind, the ticks and the pattern of an event have fields of its word to themselves
(`toNat_word`), so the decoder finds them where they were put (`accept_word`), and words
in any pieces are the events that they were made of: `events_of_words`.

Behind stray bytes the decoder looks at one byte only, which belongs to the ticks of the
next event.  It finds the event exactly if that byte is no header: `recovers_iff`, and
`not_recovers_falseHeader` for an event that is missed.
-/

namespace PulseSequencer.LogicAnalyzer

set_option autoImplicit false

/-- What is captured of an event: its kind, the ticks since the event before it, for which
there are 24 bits on the wire, and the pins. -/
structure Capture where
  kind : Kind
  ticks : UInt64
  pattern : UInt32
  room : ticks.toNat < 2 ^ 24 := by decide

namespace Capture

def word (c : Capture) : UInt64 := eventWord c.kind c.ticks c.pattern

def bytes (c : Capture) : Bytes := bytesOfWord c.word

/-- The ticks that captures take together. -/
def total (captures : List Capture) : Nat := (captures.map fun c => c.ticks.toNat).sum

/-- What captures tell after so many ticks: kinds, nanoseconds and pins. -/
def told (elapsed : Nat) : List Capture → List (Kind × Nat × UInt32)
  | [] => []
  | c :: rest =>
      (c.kind, 5 * (elapsed + c.ticks.toNat), c.pattern) :: told (elapsed + c.ticks.toNat) rest

end Capture

/-- What an event tells, with its time in a number of any size. -/
def Event.reading (e : Event) : Kind × Nat × UInt32 := (e.kind, e.time.toNat, e.pattern)

/-! ## Fields of a word -/

theorem toNat_mask24 (w : UInt64) : (w &&& mask24).toNat = w.toNat % 2 ^ 24 :=
  Nat.and_two_pow_sub_one_eq_mod w.toNat 24

theorem headerOf?_bytesOfWord (w : UInt64) :
    headerOf? (bytesOfWord w) = Kind.ofHeader? (UInt8.ofNat (w.toNat / 2 ^ 56)) := by
  rw [headerOf?, bytesOfWord, getElem?_littleEndian w.toNat (by decide)]
  rfl

namespace Capture

variable (c : Capture)

theorem toNat_word : c.word.toNat =
    c.kind.header.toNat * 2 ^ 56 + c.ticks.toNat * 2 ^ 32 + c.pattern.toNat := by
  have header := c.kind.header.toNat_lt
  have pins := c.pattern.toNat_lt
  have room := c.room
  have all : (c.ticks &&& mask24).toNat = c.ticks.toNat := by
    rw [toNat_mask24, Nat.mod_eq_of_lt room]
  have low : ((c.ticks &&& mask24) <<< 32 ||| c.pattern.toUInt64).toNat =
      c.ticks.toNat * 2 ^ 32 + c.pattern.toNat := by
    rw [← all]
    exact toNat_field 32 (by omega) (by omega) pins
  have whole : (c.kind.header.toUInt64 <<< 56 |||
        ((c.ticks &&& mask24) <<< 32 ||| c.pattern.toUInt64)).toNat =
      c.kind.header.toNat * 2 ^ 56 +
        ((c.ticks &&& mask24) <<< 32 ||| c.pattern.toUInt64).toNat :=
    toNat_field 56 (by omega) (by rw [UInt8.toNat_toUInt64]; omega) (by omega)
  rw [word, eventWord, UInt64.or_assoc, whole, low, Nat.add_assoc]

theorem length_bytes : c.bytes.length = 8 := length_bytesOfWord c.word

theorem wordOfBytes_bytes : wordOfBytes c.bytes = c.word := wordOfBytes_bytesOfWord c.word

theorem headerOf?_bytes : headerOf? c.bytes = some c.kind := by
  have pins := c.pattern.toNat_lt
  have room := c.room
  have top : c.word.toNat / 2 ^ 56 = c.kind.header.toNat := by
    rw [c.toNat_word]
    omega
  rw [bytes, headerOf?_bytesOfWord, top, UInt8.ofNat_toNat, Kind.ofHeader?_header]

theorem ticks_word : c.word >>> 32 &&& mask24 = c.ticks := by
  have pins := c.pattern.toNat_lt
  have room := c.room
  apply UInt64.toNat_inj.1
  rw [toNat_mask24, UInt64.toNat_shiftRight, c.toNat_word]
  change _ >>> 32 % _ = _
  rw [Nat.shiftRight_eq_div_pow]
  omega

theorem pattern_word : c.word.toUInt32 = c.pattern := by
  have pins := c.pattern.toNat_lt
  apply UInt32.toNat_inj.1
  rw [UInt64.toNat_toUInt32, c.toNat_word]
  omega

end Capture

namespace Decoder

/-! ## Words in order -/

/-- The word of a capture is read for what it is. -/
theorem accept_word (d : Decoder) (c : Capture) :
    d.accept c.kind (wordOfBytes c.bytes) =
      ({ d with
          ticks := d.ticks + c.ticks
          misaligned := 0
          stats := { d.stats with records := d.stats.records + 1 } },
        ⟨c.kind, (d.ticks + c.ticks) * Telemetry.tickLength, c.pattern⟩) := by
  rw [c.wordOfBytes_bytes, accept, c.ticks_word, c.pattern_word]

/-- The event of a capture, while the time fits. -/
theorem reading_word (d : Decoder) (c : Capture) {elapsed : Nat} (at' : d.ticks.toNat = elapsed)
    (fits : 5 * (elapsed + c.ticks.toNat) < 2 ^ 64) :
    (d.ticks + c.ticks).toNat = elapsed + c.ticks.toNat ∧
      (d.accept c.kind (wordOfBytes c.bytes)).2.reading =
        (c.kind, 5 * (elapsed + c.ticks.toNat), c.pattern) := by
  have sum : (d.ticks + c.ticks).toNat = elapsed + c.ticks.toNat := by
    rw [UInt64.toNat_add, at', Nat.mod_eq_of_lt (by omega)]
  have time : ((d.ticks + c.ticks) * Telemetry.tickLength).toNat =
      5 * (elapsed + c.ticks.toNat) := by
    rw [UInt64.toNat_mul, sum, Nat.mul_comm]
    exact Nat.mod_eq_of_lt fits
  rw [accept_word, Event.reading, time]
  exact ⟨sum, rfl⟩

/-- **A scan of words tells the captures.** -/
theorem scan_words (d : Decoder) (captures : List Capture) (elapsed : Nat)
    (at' : d.ticks.toNat = elapsed) (fits : 5 * (elapsed + Capture.total captures) < 2 ^ 64) :
    ∃ last events, d.scan (bytesOfWords (captures.map Capture.word)) = (last, .ok events) ∧
      events.map Event.reading = Capture.told elapsed captures ∧
      last.stats = { d.stats with records := d.stats.records + captures.length } ∧
      last.residual = [] := by
  induction captures generalizing d elapsed with
  | nil => exact ⟨_, [], scan_of_short d (by decide), rfl, rfl, rfl⟩
  | cons c rest ih =>
      rw [Capture.total, List.map_cons, List.sum_cons, ← Capture.total] at fits
      obtain ⟨sum, reading⟩ := reading_word d c at' (by omega)
      obtain ⟨last, events, scanned, told, stats, empty⟩ :=
        ih (d.accept c.kind (wordOfBytes c.bytes)).1 (elapsed + c.ticks.toNat)
          (by rw [accept_word]; exact sum) (by omega)
      refine ⟨last, _ :: events, ?_, congrArg₂ List.cons reading told, ?_, empty⟩
      · have cut : bytesOfWords ((c :: rest).map Capture.word) =
            c.bytes ++ bytesOfWords (rest.map Capture.word) := rfl
        rw [cut, scan_of_header d c.length_bytes c.headerOf?_bytes, scanned]
        rfl
      · rw [stats, accept_word, List.length_cons, Nat.add_assoc, Nat.add_comm 1]

/-- Calls with the pieces of a stream that one call takes without a failure. -/
theorem feedUntil_of_scan {d last : Decoder} {pieces : List Bytes} {events : List Event}
    (fresh : d.residual = []) (scanned : d.scan pieces.flatten = (last, .ok events)) :
    d.feedUntil pieces = (last, .ok events, []) := by
  obtain ⟨state, told, nothing⟩ := d.feed_feedUntil (by rw [fresh]; decide) pieces
  rw [feed_fst, fresh, List.nil_append, scanned] at state
  rw [feed_result, fresh, List.nil_append, scanned] at told
  have unfed := nothing events told.symm
  rw [unfed, List.flatten_nil, List.append_nil] at state
  exact Prod.ext state.symm (Prod.ext told.symm unfed)

/-- **Words of captures are decoded to the events that were captured.**  For captures whose
time fits and any pieces of their words, no call fails, and together they tell kinds and
patterns as they were, each at five nanoseconds for a tick so far; nothing is realigned and
nothing is left. -/
theorem events_of_words (tolerance : Nat) (captures : List Capture)
    (fits : 5 * Capture.total captures < 2 ^ 64) (pieces : List Bytes)
    (cut : pieces.flatten = bytesOfWords (captures.map Capture.word)) :
    ∃ last events, ({ tolerance } : Decoder).feedUntil pieces = (last, .ok events, []) ∧
      events.map Event.reading = Capture.told 0 captures ∧
      last.stats = { records := captures.length, realignments := 0, skippedBytes := 0 } ∧
      last.residual = [] := by
  obtain ⟨last, events, scanned, told, stats, empty⟩ :=
    scan_words { tolerance } captures 0 rfl (by rwa [Nat.zero_add])
  refine ⟨last, events, feedUntil_of_scan rfl (cut ▸ scanned), told, stats.trans ?_, empty⟩
  exact congrArg (Stats.mk · 0 0) (Nat.zero_add _)

/-- Two events, the first one after the most ticks that there are, cut within the pattern. -/
theorem events_of_words_twoPieces :
    5 * Capture.total [⟨.gate, 0xffffff, 7, by decide⟩, ⟨.data, 2, 0xffffffff, by decide⟩] <
        2 ^ 64 ∧
      ∃ last events, ({ tolerance := 0 } : Decoder).feedUntil
          [[7, 0, 0], [0, 0xff, 0xff, 0xff, 0x83, 0xff, 0xff, 0xff, 0xff, 2, 0, 0, 0x80]] =
            (last, .ok events, []) ∧
        events.map Event.reading =
          [(.gate, 83886075, 7), (.data, 83886085, 0xffffffff)] ∧
        last.stats = { records := 2, realignments := 0, skippedBytes := 0 } ∧
        last.residual = [] :=
  ⟨by decide, events_of_words 0 [⟨.gate, 0xffffff, 7, by decide⟩,
    ⟨.data, 2, 0xffffffff, by decide⟩] (by decide) _ (by decide)⟩

/-! ## Behind stray bytes -/

end Decoder

/-- The byte of its ticks that a decoder two bytes too early takes for a header. -/
def Capture.middle (c : Capture) : UInt8 := UInt8.ofNat (c.ticks.toNat / 2 ^ 8)

/-- Two bytes before a capture stands a word with its middle byte on top. -/
theorem headerOf?_early (c : Capture) (a b : UInt8) :
    headerOf? ([a, b] ++ c.bytes.take 6) = Kind.ofHeader? c.middle := by
  have pins := c.pattern.toNat_lt
  have room := c.room
  have kept : (c.bytes.take 6)[5]? = c.bytes[5]? := List.getElem?_take_of_lt (by decide)
  have byte : UInt8.ofNat (c.word.toNat / 256 ^ 5) = c.middle := by
    apply UInt8.toNat_inj.1
    rw [Capture.middle, UInt8.toNat_ofNat', UInt8.toNat_ofNat', c.toNat_word]
    omega
  have seventh : ([a, b] ++ c.bytes.take 6)[7]? = some c.middle := by
    rw [List.getElem?_append_right (Nat.le_of_ble_eq_true rfl)]
    exact kept.trans ((getElem?_littleEndian c.word.toNat (by decide)).trans (congrArg some byte))
  rw [headerOf?, seventh]
  rfl

namespace Decoder

/-- The bytes of two captures with two stray ones in between. -/
def straying (first : Capture) (a b : UInt8) (second : Capture) : Bytes :=
  first.bytes ++ [a, b] ++ second.bytes

/-- Calls with pieces tell two captures and nothing else, skip the stray bytes in one
realignment, and leave nothing. -/
def Recovers (d : Decoder) (pieces : List Bytes) (first second : Capture) : Prop :=
  ∃ last events, d.feedUntil pieces = (last, .ok events, []) ∧
    events.map Event.reading = Capture.told 0 [first, second] ∧
    last.stats = { records := 2, realignments := 1, skippedBytes := 2 } ∧ last.residual = []

section Straying

variable (tolerance : Nat) (first second : Capture) (a b : UInt8)

theorem straying_eq : straying first a b second =
    first.bytes ++ (([a, b] ++ second.bytes.take 6) ++ second.bytes.drop 6) := by
  rw [straying, List.append_assoc, List.append_assoc, List.take_append_drop]

theorem length_early : ([a, b] ++ second.bytes.take 6).length = 8 := by
  rw [List.length_append, List.length_take, second.length_bytes]
  rfl

/-- Without a header in the middle the decoder skips the stray bytes and is in step. -/
theorem scan_straying (one : 1 ≤ tolerance) (clear : Kind.ofHeader? second.middle = none) :
    ∃ last events, ({ tolerance } : Decoder).scan (straying first a b second) =
        (last, .ok events) ∧
      events.map Event.reading = Capture.told 0 [first, second] ∧
      last.stats = { records := 2, realignments := 1, skippedBytes := 2 } ∧
      last.residual = [] := by
  have firstRoom := first.room
  have secondRoom := second.room
  let d : Decoder := (({ tolerance } : Decoder).accept first.kind (wordOfBytes first.bytes)).1
  have start : ({ tolerance } : Decoder).ticks.toNat = 0 := rfl
  obtain ⟨sum, reading⟩ := reading_word { tolerance } first start (by omega)
  have slipped : d.slip.ticks.toNat = 0 + first.ticks.toNat := by
    have same : d.slip.ticks = ({ tolerance } : Decoder).ticks + first.ticks :=
      congrArg (fun taken => taken.1.ticks) (accept_word { tolerance } first)
    rw [same, sum]
  obtain ⟨last, events, scanned, told, stats, empty⟩ := scan_words d.slip [second] _ slipped (by
    rw [Capture.total, List.map_cons, List.map_nil, List.sum_singleton]
    omega)
  have whole : bytesOfWords ([second].map Capture.word) = second.bytes := List.append_nil _
  have behind : ([a, b] ++ second.bytes.take 6).drop 2 ++ second.bytes.drop 6 = second.bytes :=
    List.take_append_drop 6 second.bytes
  have within : ¬ d.slip.misaligned > d.tolerance := Nat.not_lt.2 one
  rw [whole] at scanned
  refine ⟨last, _ :: events, ?_, congrArg₂ List.cons reading told, stats, empty⟩
  rw [straying_eq, scan_of_header _ first.length_bytes first.headerOf?_bytes,
    scan_of_slip _ (length_early second a b) ((headerOf?_early second a b).trans clear),
    if_neg within, behind, scanned]
  rfl

/-- With a header in the middle it takes the stray bytes for the pattern of an event, and
the end of the second word is left. -/
theorem scan_falseHeader {kind : Kind} (false' : Kind.ofHeader? second.middle = some kind) :
    ∃ last events, ({ tolerance } : Decoder).scan (straying first a b second) =
        (last, .ok events) ∧
      last.residual = second.bytes.drop 6 := by
  have few : (second.bytes.drop 6).length < 8 := by
    rw [List.length_drop, second.length_bytes]
    decide
  rw [straying_eq, scan_of_header _ first.length_bytes first.headerOf?_bytes,
    scan_of_header _ (length_early second a b) ((headerOf?_early second a b).trans false'),
    scan_of_short _ few]
  exact ⟨_, _, rfl, rfl⟩

end Straying

/-- **Which events are found behind stray bytes.**  Whatever the two stray bytes are and
however the stream is cut, a decoder that tolerates a misalignment tells both events with
their times and counts one realignment by two bytes, exactly if the middle byte of the ticks
of the second event is no header. -/
theorem recovers_iff {tolerance : Nat} (one : 1 ≤ tolerance) (first second : Capture)
    (a b : UInt8) {pieces : List Bytes} (cut : pieces.flatten = straying first a b second) :
    ({ tolerance } : Decoder).Recovers pieces first second ↔
      Kind.ofHeader? second.middle = none := by
  constructor
  · rintro ⟨last, events, fed, -, -, empty⟩
    cases header : Kind.ofHeader? second.middle with
    | none => rfl
    | some kind =>
        obtain ⟨last', events', scanned, left⟩ :=
          scan_falseHeader tolerance first second a b header
        have fed' := feedUntil_of_scan rfl (cut ▸ scanned)
        obtain rfl : last' = last := congrArg Prod.fst (fed'.symm.trans fed)
        have gone := congrArg List.length (left.symm.trans empty)
        rw [List.length_drop, second.length_bytes] at gone
        cases gone
  · intro clear
    obtain ⟨last, events, scanned, told, stats, empty⟩ :=
      scan_straying tolerance first second a b one clear
    exact ⟨last, events, feedUntil_of_scan rfl (cut ▸ scanned), told, stats, empty⟩

/-- Stray bytes that look like headers do no harm, with a word cut in two. -/
theorem recovers_iff_strayHeaders : 1 ≤ 1 ∧
    ({ tolerance := 1 } : Decoder).Recovers
      [[0xef, 0xbe, 0xad, 0xde, 1, 0, 0, 0x81, 0x80], [0x80, 0xff, 0, 0, 0, 1, 0x7f, 0, 0x80]]
      ⟨.trigger, 1, 0xdeadbeef, by decide⟩ ⟨.data, 0x7f01, 0xff, by decide⟩ :=
  ⟨by decide, (recovers_iff (by decide) _ _ 0x80 0x80 (by decide)).2 (by decide)⟩

/-- An event 32768 ticks after the one before it is missed: the middle byte of its ticks is
the header of a data event. -/
theorem not_recovers_falseHeader : ¬ ({ tolerance := 4 } : Decoder).Recovers
    [straying ⟨.trigger, 1, 0xdeadbeef, by decide⟩ 0x12 0x34 ⟨.data, 0x8000, 0xff, by decide⟩]
    ⟨.trigger, 1, 0xdeadbeef, by decide⟩ ⟨.data, 0x8000, 0xff, by decide⟩ := by
  rintro ⟨last, events, fed, -, -, empty⟩
  have left : last.residual = [0, 0x80] := by
    have same : _ = last := congrArg Prod.fst fed
    rw [← same]
    decide
  rw [left] at empty
  cases empty

end Decoder

end PulseSequencer.LogicAnalyzer
