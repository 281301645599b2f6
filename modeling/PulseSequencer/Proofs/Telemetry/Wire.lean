import PulseSequencer.Proofs.Telemetry.Decoding

/-
# PulseSequencer.Proofs.Telemetry.Wire -- what is sent is what is decoded

The decoder has to find the kind, the channel and the payload of a word where the wire
form of an item puts them, and must not take a second word for a first one.  `Reports`
says what an item means after a number of clock overflows, in numbers of any size, and
`Reads` says it of items in order.  Main statement: `reads_of_items`.
-/

namespace PulseSequencer.Telemetry

set_option autoImplicit false

/-! ## Fields of a word -/

theorem toNat_mask40 (w : UInt64) : (w &&& mask40).toNat = w.toNat % 2 ^ 40 :=
  Nat.and_two_pow_sub_one_eq_mod w.toNat 40

theorem toNat_mask48 (w : UInt64) : (w &&& mask48).toNat = w.toNat % 2 ^ 48 :=
  Nat.and_two_pow_sub_one_eq_mod w.toNat 48

theorem toNat_mask28 (w : UInt64) : (w &&& mask28).toNat = w.toNat % 2 ^ 28 :=
  Nat.and_two_pow_sub_one_eq_mod w.toNat 28

theorem toNat_code_lt (key : Key) : key.code.toNat < 2 ^ 8 := by
  cases key <;> decide

section ChannelWord

variable (key : Key) (channel : UInt8) {payload : UInt64} (fits : payload.toNat < 2 ^ 48)
include fits

theorem toNat_channelWord :
    (channelWord key channel payload).toNat =
      key.code.toNat * 2 ^ 56 + channel.toNat * 2 ^ 48 + payload.toNat := by
  have code := toNat_code_lt key
  have byte := channel.toNat_lt
  have low : (channel.toUInt64 <<< 48 ||| payload).toNat = channel.toNat * 2 ^ 48 + payload.toNat :=
    toNat_field 48 (by omega) (by rw [UInt8.toNat_toUInt64]; omega) fits
  have whole : (key.code <<< 56 ||| (channel.toUInt64 <<< 48 ||| payload)).toNat =
      key.code.toNat * 2 ^ 56 + (channel.toUInt64 <<< 48 ||| payload).toNat :=
    toNat_field 56 (by omega) (by omega) (by omega)
  rw [channelWord, UInt64.or_assoc, whole, low, Nat.add_assoc]

theorem key_channelWord : Key.ofWord? (channelWord key channel payload) = some key := by
  have top : channelWord key channel payload >>> 56 = key.code := by
    have byte := channel.toNat_lt
    apply UInt64.toNat_inj.1
    rw [UInt64.toNat_shiftRight, toNat_channelWord key channel fits]
    change _ >>> 56 = _
    rw [Nat.shiftRight_eq_div_pow]
    omega
  rw [Key.ofWord?, top]
  cases key <;> decide

theorem channel_channelWord : (channelWord key channel payload >>> 48).toUInt8 = channel := by
  have byte := channel.toNat_lt
  apply UInt8.toNat_inj.1
  rw [UInt64.toNat_toUInt8, UInt64.toNat_shiftRight, toNat_channelWord key channel fits]
  change _ >>> 48 % _ = _
  rw [Nat.shiftRight_eq_div_pow]
  omega

theorem payload48_channelWord : channelWord key channel payload &&& mask48 = payload := by
  apply UInt64.toNat_inj.1
  rw [toNat_mask48, toNat_channelWord key channel fits]
  omega

theorem payload40_channelWord (short : payload.toNat < 2 ^ 40) :
    channelWord key channel payload &&& mask40 = payload := by
  apply UInt64.toNat_inj.1
  rw [toNat_mask40, toNat_channelWord key channel fits]
  omega

theorem low_channelWord : (channelWord key channel payload).toUInt16 = payload.toUInt16 := by
  apply UInt16.toNat_inj.1
  rw [UInt64.toNat_toUInt16, UInt64.toNat_toUInt16, toNat_channelWord key channel fits]
  omega

end ChannelWord

theorem mask40_of_lt {w : UInt64} (short : w.toNat < 2 ^ 40) : w &&& mask40 = w := by
  apply UInt64.toNat_inj.1
  rw [toNat_mask40, Nat.mod_eq_of_lt short]

theorem mask48_of_lt {w : UInt64} (short : w.toNat < 2 ^ 48) : w &&& mask48 = w := by
  apply UInt64.toNat_inj.1
  rw [toNat_mask48, Nat.mod_eq_of_lt short]

section MarkerWord

variable (marker : Marker) {payload : UInt64} (fits : payload.toNat < 2 ^ 48)
include fits

theorem toNat_markerWord :
    (marker.word payload).toNat = marker.code.toNat * 2 ^ 48 + payload.toNat :=
  toNat_field 48 (by omega) (by cases marker <;> decide) fits

theorem shiftRight_markerWord : marker.word payload >>> 48 = marker.code := by
  apply UInt64.toNat_inj.1
  rw [UInt64.toNat_shiftRight, toNat_markerWord marker fits]
  change _ >>> 48 = _
  rw [Nat.shiftRight_eq_div_pow]
  omega

theorem marker_markerWord : Marker.ofWord? (marker.word payload) = some marker := by
  rw [Marker.ofWord?, shiftRight_markerWord marker fits]
  cases marker <;> decide

theorem key_markerWord : Key.ofWord? (marker.word payload) = some .marker := by
  have top : marker.word payload >>> 56 = Key.marker.code := by
    apply UInt64.toNat_inj.1
    rw [UInt64.toNat_shiftRight, toNat_markerWord marker fits]
    change _ >>> 56 = 0xff
    rw [Nat.shiftRight_eq_div_pow]
    cases marker <;> simp only [Marker.code, UInt64.reduceToNat] <;> omega
  rw [Key.ofWord?, top]
  decide

theorem markerWord_ne_endOfRun : marker.word payload ≠ Variable.endOfRun := by
  intro same
  have top := shiftRight_markerWord marker fits
  rw [same] at top
  revert top
  cases marker <;> decide

/-- A marker word is read as that marker. -/
theorem Decoder.first_markerWord (d : Decoder) :
    d.first (marker.word payload) = d.marker (marker.word payload) := by
  rw [Decoder.first, key_markerWord marker fits]

end MarkerWord

/-! ## What items mean -/

/-- Whether the numbers of an item fit its wire form.  A word as it is is no item of its
own kind. -/
def Item.Fits : Item → Prop
  | .count _ n => n.toNat < 2 ^ 40
  | .timestamp _ ticks | .gateStart _ ticks | .timeTick _ ticks => ticks.toNat < 2 ^ 40
  | .adc _ samples sum => samples.toNat < 2 ^ 12 ∧ sum.toNat < 2 ^ 28
  | .dedicated _ value => value.toNat < 2 ^ 48
  | .exitcode code => code.toNat < 2 ^ 48
  | .scanValue _ | .dependentValue _ | .result _ _ | .overflow | .timingViolation _ | .endOfRun => True
  | .word _ => False

instance (item : Item) : Decidable item.Fits := by
  cases item <;> unfold Item.Fits <;> infer_instance

/-- Nanoseconds since the start of the run, after a number of clock overflows. -/
def nanoseconds (overflows : Nat) (ticks : UInt64) : Nat := (ticks.toNat + overflows * 2 ^ 40) * 5

/-- The mean of samples; that of none is zero. -/
def meanOf (samples sum : UInt64) : Float :=
  if samples = 0 then 0.0 else sum.toFloat / samples.toFloat

/-- The token that an item stands for, after a number of clock overflows. -/
inductive Item.Reports (overflows : Nat) : Item → Token → Prop
  | count {channel : UInt8} {n : UInt64} : Reports overflows (.count channel n) (.count channel n)
  | timestamp {channel : UInt8} {ticks time : UInt64}
      (at' : time.toNat = nanoseconds overflows ticks) :
      Reports overflows (.timestamp channel ticks) (.timestamp channel time)
  | gateStart {channel : UInt8} {ticks time : UInt64}
      (at' : time.toNat = nanoseconds overflows ticks) :
      Reports overflows (.gateStart channel ticks) (.gateStart channel time)
  | timeTick {channel : UInt8} {ticks time : UInt64}
      (at' : time.toNat = nanoseconds overflows ticks) :
      Reports overflows (.timeTick channel ticks) (.timeTick channel time)
  | adc {channel : UInt8} {samples sum : UInt64} :
      Reports overflows (.adc channel samples sum) (.adcMean channel (meanOf samples sum))
  | scanValue {value : UInt64} : Reports overflows (.scanValue value) (.scanValue value)
  | dependentValue {value : UInt64} :
      Reports overflows (.dependentValue value) (.dependentValue value)
  | result {channel : UInt8} {value : Int64} :
      Reports overflows (.result channel value) (.result channel value)
  | dedicated {channel : UInt8} {value : UInt64} :
      Reports overflows (.dedicated channel value) (.dedicated channel value)
  | timingViolation {address : UInt16} :
      Reports overflows (.timingViolation address) (.timingViolation address)
  | exitcode {code whole : UInt64} (made : whole.toNat = 0xfffe * 2 ^ 48 + code.toNat) :
      Reports overflows (.exitcode code) (.exitcode whole)
  | endOfRun : Reports overflows .endOfRun .endOfRun

/-- The tokens of items in order.  A clock overflow has none of its own and counts for
every time behind it. -/
inductive Reads : Nat → List Item → List Token → Prop
  | nil {overflows : Nat} : Reads overflows [] []
  | overflow {overflows : Nat} {items : List Item} {tokens : List Token} :
      Reads (overflows + 1) items tokens → Reads overflows (.overflow :: items) tokens
  | token {overflows : Nat} {item : Item} {token : Token} {items : List Item}
      {tokens : List Token} : item.Reports overflows token → Reads overflows items tokens →
        Reads overflows (item :: items) (token :: tokens)

/-! ## What the decoder makes of them -/

/-- More overflows than these do not fit a time of 64 bits. -/
def overflowLimit : Nat := 3355442

/-- The decoder between two items. -/
structure Decoder.Between (d : Decoder) (overflows : Nat) : Prop where
  normal : d.phase = .normal
  ticks : d.overflowTicks.toNat = overflows * 2 ^ 40

namespace Decoder

variable {d : Decoder} {overflows : Nat}

theorem Between.next (between : d.Between overflows) (word : UInt64) :
    d.next word = ((d.first word).1, (d.first word).2, []) := by
  obtain ⟨phase, residual, ticks⟩ := d
  obtain rfl := between.normal
  rfl

/-- No time overflows. -/
theorem Between.time (between : d.Between overflows) (few : overflows ≤ overflowLimit)
    {word ticks : UInt64} (payload : word &&& mask40 = ticks) (short : ticks.toNat < 2 ^ 40) :
    (d.time word).toNat = nanoseconds overflows ticks := by
  have count := between.ticks
  unfold overflowLimit at few
  have five : tickLength.toNat = 5 := rfl
  rw [Decoder.time, payload, UInt64.toNat_mul, UInt64.toNat_add, count, five, nanoseconds,
    Nat.mod_eq_of_lt (b := 2 ^ 64) (by omega), Nat.mod_eq_of_lt (by omega)]

/-- A clock overflow yields no token and moves the times behind it. -/
theorem Between.overflow (between : d.Between overflows) (few : overflows < overflowLimit) :
    ∃ e : Decoder, e.Between (overflows + 1) ∧ e.residual = d.residual ∧
      d.nextAll Item.overflow.words = (e, [], []) := by
  have count := between.ticks
  unfold overflowLimit at few
  refine ⟨{ d with overflowTicks := d.overflowTicks + overflowLength }, ⟨between.normal, ?_⟩, rfl, ?_⟩
  · have length : overflowLength.toNat = 2 ^ 40 := rfl
    rw [UInt64.toNat_add, count, length, Nat.mod_eq_of_lt (by omega)]
    omega
  · simp only [Item.words, nextAll, between.next]
    rfl

/-- A word that is an item of its own. -/
theorem Between.single (between : d.Between overflows) {word : UInt64} {token : Token}
    (reads : d.first word = (d, some token)) : d.nextAll [word] = (d, [token], []) := by
  simp only [nextAll, between.next, reads]
  rfl

/-- A word that announces a second one. -/
theorem Between.pair (between : d.Between overflows) (phase : Phase) {word second : UInt64}
    {token : Token} (announces : d.first word = ({ d with phase }, none))
    (reads : ({ d with phase } : Decoder).next second = ({ d with phase := .normal }, some token, [])) :
    d.nextAll [word, second] = (d, [token], []) := by
  have back : ({ d with phase := .normal } : Decoder) = d := by
    obtain ⟨_, residual, ticks⟩ := d
    obtain rfl := between.normal
    rfl
  simp only [nextAll, between.next, announces, reads, back]
  rfl

/-- Number and sum of samples beside each other. -/
theorem toNat_samples {samples sum : UInt64} (few : samples.toNat < 2 ^ 12)
    (small : sum.toNat < 2 ^ 28) :
    ((samples &&& 0xfff) <<< 28 ||| (sum &&& mask28)).toNat = samples.toNat * 2 ^ 28 + sum.toNat := by
  have cutSamples : (samples &&& 0xfff).toNat = samples.toNat :=
    (Nat.and_two_pow_sub_one_eq_mod samples.toNat 12).trans (Nat.mod_eq_of_lt few)
  have cutSum : (sum &&& mask28).toNat = sum.toNat := by rw [toNat_mask28, Nat.mod_eq_of_lt small]
  have joined : ((samples &&& 0xfff) <<< 28 ||| (sum &&& mask28)).toNat =
      (samples &&& 0xfff).toNat * 2 ^ 28 + (sum &&& mask28).toNat :=
    toNat_field 28 (by omega) (by omega) (by omega)
  rw [joined, cutSamples, cutSum]

theorem adcMean_channelWord (channel : UInt8) {samples sum : UInt64} (few : samples.toNat < 2 ^ 12)
    (small : sum.toNat < 2 ^ 28) :
    adcMean (channelWord .adc channel ((samples &&& 0xfff) <<< 28 ||| (sum &&& mask28))) =
      meanOf samples sum := by
  have payload := toNat_samples few small
  have whole := toNat_channelWord .adc channel (by rw [payload]; omega)
  rw [payload] at whole
  generalize channelWord .adc channel ((samples &&& 0xfff) <<< 28 ||| (sum &&& mask28)) = word at whole
  have number : word >>> 28 &&& 0xfff = samples := by
    apply UInt64.toNat_inj.1
    refine (Nat.and_two_pow_sub_one_eq_mod (word >>> 28).toNat 12).trans ?_
    rw [UInt64.toNat_shiftRight]
    change _ >>> 28 % _ = _
    rw [Nat.shiftRight_eq_div_pow]
    omega
  have total : word &&& mask28 = sum := by
    apply UInt64.toNat_inj.1
    rw [toNat_mask28]
    omega
  rw [adcMean, number, total, meanOf]

/-- The two halves of a result. -/
theorem result_halves (value : UInt64) :
    (value >>> 48).toUInt16.toUInt64 <<< 48 ||| (value &&& mask48) = value := by
  have small := value.toNat_lt
  have high : (value >>> 48).toUInt16.toUInt64.toNat = value.toNat / 2 ^ 48 := by
    rw [UInt16.toNat_toUInt64, UInt64.toNat_toUInt16, UInt64.toNat_shiftRight]
    change _ >>> 48 % _ = _
    rw [Nat.shiftRight_eq_div_pow]
    omega
  have low := toNat_mask48 value
  have joined : ((value >>> 48).toUInt16.toUInt64 <<< 48 ||| (value &&& mask48)).toNat =
      (value >>> 48).toUInt16.toUInt64.toNat * 2 ^ 48 + (value &&& mask48).toNat :=
    toNat_field 48 (by omega) (by omega) (by omega)
  apply UInt64.toNat_inj.1
  rw [joined, high, low]
  omega

/-- **What the decoder makes of one item**: its token, and nothing is left of it. -/
theorem Between.reports (between : d.Between overflows) (few : overflows ≤ overflowLimit)
    {item : Item} (fits : item.Fits) (token' : item ≠ .overflow) :
    ∃ token, item.Reports overflows token ∧ d.nextAll item.words = (d, [token], []) := by
  -- Fields that fit are not cut, so a word holds them as they are.
  cases item with
  | count channel n =>
      have short : n.toNat < 2 ^ 40 := fits
      refine ⟨.count channel n, .count, between.single ?_⟩
      rw [mask40_of_lt short, first, key_channelWord _ _ (by omega),
        channel_channelWord _ _ (by omega), payload40_channelWord _ _ (by omega) short]
  | timestamp channel ticks =>
      have short : ticks.toNat < 2 ^ 40 := fits
      refine ⟨_, .timestamp (between.time few (payload40_channelWord .timestamp channel
        (by omega) short) short), between.single ?_⟩
      rw [mask40_of_lt short, first, key_channelWord _ _ (by omega),
        channel_channelWord _ _ (by omega)]
  | gateStart channel ticks =>
      have short : ticks.toNat < 2 ^ 40 := fits
      refine ⟨_, .gateStart (between.time few (payload40_channelWord .gateStart channel
        (by omega) short) short), between.single ?_⟩
      rw [mask40_of_lt short, first, key_channelWord _ _ (by omega),
        channel_channelWord _ _ (by omega)]
  | timeTick channel ticks =>
      have short : ticks.toNat < 2 ^ 40 := fits
      refine ⟨_, .timeTick (between.time few (payload40_channelWord .timeTick channel
        (by omega) short) short), between.single ?_⟩
      rw [mask40_of_lt short, first, key_channelWord _ _ (by omega),
        channel_channelWord _ _ (by omega)]
  | adc channel samples sum =>
      obtain ⟨few, small⟩ : samples.toNat < 2 ^ 12 ∧ sum.toNat < 2 ^ 28 := fits
      have room : ((samples &&& 0xfff) <<< 28 ||| (sum &&& mask28)).toNat < 2 ^ 48 := by
        rw [toNat_samples few small]
        omega
      refine ⟨.adcMean channel (meanOf samples sum), .adc, between.single ?_⟩
      rw [first, key_channelWord _ _ room, channel_channelWord _ _ room,
        adcMean_channelWord channel few small]
  | scanValue value =>
      exact ⟨.scanValue value, .scanValue, between.pair .scanValue rfl rfl⟩
  | dependentValue value =>
      exact ⟨.dependentValue value, .dependentValue,
        between.pair .dependentValue rfl rfl⟩
  | result channel value =>
      have high : (value.toUInt64 >>> 48).toNat < 2 ^ 48 := by
        have small := value.toUInt64.toNat_lt
        rw [UInt64.toNat_shiftRight]
        change _ >>> 48 < _
        rw [Nat.shiftRight_eq_div_pow]
        omega
      have low : (value.toUInt64 &&& mask48).toNat < 2 ^ 48 := by
        rw [toNat_mask48]
        omega
      refine ⟨.result channel value, .result,
        between.pair (.resultLow channel (value.toUInt64 >>> 48).toUInt16) ?_ ?_⟩
      · rw [first, key_channelWord _ _ high, channel_channelWord _ _ high,
          low_channelWord _ _ high]
      · simp only [Decoder.next]
        rw [if_pos (key_channelWord _ _ low), payload48_channelWord _ _ low, result_halves,
          Int64.toInt64_toUInt64]
  | dedicated channel value =>
      have short : value.toNat < 2 ^ 48 := fits
      refine ⟨.dedicated channel value, .dedicated, between.single ?_⟩
      rw [mask48_of_lt short, first, key_channelWord _ _ short, channel_channelWord _ _ short,
        payload48_channelWord _ _ short]
  | overflow => exact absurd rfl token'
  | timingViolation address =>
      have small : address.toUInt64.toNat < 2 ^ 48 := by
        have := address.toNat_lt
        rw [UInt16.toNat_toUInt64]
        omega
      have read : (Marker.timingViolation.word address.toUInt64).toUInt16 = address := by
        apply UInt16.toNat_inj.1
        have := address.toNat_lt
        rw [UInt64.toNat_toUInt16, toNat_markerWord _ small, UInt16.toNat_toUInt64]
        omega
      refine ⟨.timingViolation address, .timingViolation, between.single ?_⟩
      rw [first_markerWord _ small, marker, if_neg (markerWord_ne_endOfRun _ small),
        marker_markerWord _ small, read]
  | exitcode code =>
      have short : code.toNat < 2 ^ 48 := fits
      refine ⟨.exitcode (Marker.exitcode.word code), .exitcode (toNat_markerWord _ short),
        between.single ?_⟩
      rw [mask48_of_lt short, first_markerWord _ short, marker,
        if_neg (markerWord_ne_endOfRun _ short), marker_markerWord _ short]
  | endOfRun => exact ⟨.endOfRun, .endOfRun, between.single rfl⟩
  | word w => exact absurd fits not_false

end Decoder

/-- **What the decoder makes of items in order.** -/
theorem Decoder.Between.reads {d : Decoder} {overflows : Nat} {items : List Item}
    (between : d.Between overflows) (fits : ∀ item ∈ items, item.Fits)
    (few : overflows + items.count .overflow ≤ overflowLimit) :
    ∃ (e : Decoder) (tokens : List Token), Reads overflows items tokens ∧
      d.nextAll (items.flatMap Item.words) = (e, tokens, []) ∧
      e.Between (overflows + items.count .overflow) ∧ e.residual = d.residual := by
  induction items generalizing d overflows with
  | nil => exact ⟨d, [], .nil, rfl, between, rfl⟩
  | cons item rest ih =>
      have later : ∀ other ∈ rest, other.Fits := fun other there =>
        fits other (List.mem_cons_of_mem _ there)
      rw [List.flatMap_cons, Decoder.nextAll_append]
      by_cases clock : item = .overflow
      · subst clock
        rw [List.count_cons_self] at few ⊢
        obtain ⟨e, here, same, taken⟩ := between.overflow (by omega)
        obtain ⟨last, tokens, reads, onward, there, kept⟩ := ih here later (by omega)
        refine ⟨last, tokens, .overflow reads, ?_, ?_, kept.trans same⟩
        · rw [taken, onward]
          rfl
        · rwa [Nat.add_assoc, Nat.add_comm 1] at there
      · rw [List.count_cons_of_ne clock] at few ⊢
        obtain ⟨token, reports, taken⟩ := between.reports (by omega)
          (fits item (List.mem_cons_self ..)) clock
        obtain ⟨last, tokens, reads, onward, there, kept⟩ := ih between later few
        refine ⟨last, token :: tokens, .token reports reads, ?_, there, kept⟩
        rw [taken, onward]
        rfl

/-- **What is sent is what is decoded.**  The words of items give their tokens in order,
with no time cut to 64 bits, and the decoder waits for nothing behind them. -/
theorem reads_of_items (items : List Item) (fits : ∀ item ∈ items, item.Fits)
    (few : items.count .overflow ≤ overflowLimit) :
    Reads 0 items (({} : Decoder).feed (bytesOfWords (items.flatMap Item.words))).2.1 ∧
      (({} : Decoder).feed (bytesOfWords (items.flatMap Item.words))).1.phase = .normal ∧
      (({} : Decoder).feed (bytesOfWords (items.flatMap Item.words))).1.residual = [] := by
  have start : ({} : Decoder).Between 0 := ⟨rfl, rfl⟩
  obtain ⟨e, tokens, reads, taken, there, _⟩ := start.reads fits (by rwa [Nat.zero_add])
  have fed : ({} : Decoder).feed (bytesOfWords (items.flatMap Item.words)) =
      (e.withResidual [], tokens, []) := by
    rw [Decoder.feed_eq, Decoder.completeWords_bytesOfWords rfl, taken]
  rw [fed]
  exact ⟨reads, there.normal, rfl⟩

/-- A run with an item of every kind, and with the greatest time before and behind a clock
overflow. -/
def everyKind : List Item :=
  [.count 3 0xffffffffff, .timestamp 0 0xffffffffff, .overflow, .timestamp 255 0xffffffffff,
   .gateStart 1 10, .timeTick 2 1, .adc 4 0xfff 0xfffffff, .adc 1 0 0,
   .scanValue 0xfffd000000000000, .dependentValue 0xffffffffffffffff, .result 2 (-5),
   .dedicated 7 0xffffffffffff, .timingViolation 0x8000, .exitcode 0xffffffffffff, .endOfRun]

theorem reads_of_items_everyKind :
    (∀ item ∈ everyKind, item.Fits) ∧ everyKind.count .overflow ≤ overflowLimit ∧
      Reads 0 everyKind (({} : Decoder).feed (bytesOfWords (everyKind.flatMap Item.words))).2.1 ∧
      (({} : Decoder).feed (bytesOfWords (everyKind.flatMap Item.words))).1.phase = .normal ∧
      (({} : Decoder).feed (bytesOfWords (everyKind.flatMap Item.words))).1.residual = [] := by
  have fits : ∀ item ∈ everyKind, item.Fits := by decide
  have few : everyKind.count .overflow ≤ overflowLimit := by decide
  exact ⟨fits, few, reads_of_items everyKind fits few⟩

end PulseSequencer.Telemetry
