import PulseSequencer.Device.LogicAnalyzer
import PulseSequencer.Proofs.Bytes
import Mathlib.Algebra.GroupWithZero.Nat

/-
# PulseSequencer.Proofs.Device.Capture -- captured events and the pieces they come in

A scan takes eight bytes for an event or two for a slip, and leaves less than a word
(`scan_of_short`, `scan_of_header`, `scan_of_slip`).  Nothing that it does looks behind
the word at hand, so that a scan of two pieces goes on where the scan of the first one
stopped (`scan_append`), and every byte is decoded, skipped or left (`scan_accounts`).
From this follow the two sides of cutting a stream: `feed_of_pieces`.

A call that fails does not tell the events that it decoded before, while the statistics
count them.  `told_of_pieces` tells by how much the two differ, and `told_ne_records` is
a stream where they do.
-/

namespace PulseSequencer.LogicAnalyzer

set_option autoImplicit false

/-- The kind of event that a word of eight bytes announces. -/
def headerOf? (word : Bytes) : Option Kind := word[7]?.bind Kind.ofHeader?

namespace Decoder

/-! ## One turn -/

theorem scan_of_short (d : Decoder) {bytes : Bytes} (short : bytes.length < 8) :
    d.scan bytes = ({ d with residual := bytes }, .ok []) := by
  rw [scan]
  rintro b₀ b₁ b₂ b₃ b₄ b₅ b₆ b₇ rest rfl
  simp only [List.length_cons] at short
  omega

theorem exists_of_eight {word : Bytes} (eight : word.length = 8) :
    ∃ b₀ b₁ b₂ b₃ b₄ b₅ b₆ b₇, word = [b₀, b₁, b₂, b₃, b₄, b₅, b₆, b₇] :=
  match word, eight with
  | [b₀, b₁, b₂, b₃, b₄, b₅, b₆, b₇], _ => ⟨b₀, b₁, b₂, b₃, b₄, b₅, b₆, b₇, rfl⟩

theorem scan_of_header (d : Decoder) {word : Bytes} (eight : word.length = 8) {kind : Kind}
    (header : headerOf? word = some kind) (rest : Bytes) :
    d.scan (word ++ rest) =
      (((d.accept kind (wordOfBytes word)).1.scan rest).1,
        ((d.accept kind (wordOfBytes word)).1.scan rest).2.map
          ((d.accept kind (wordOfBytes word)).2 :: ·)) := by
  obtain ⟨b₀, b₁, b₂, b₃, b₄, b₅, b₆, b₇, rfl⟩ := exists_of_eight eight
  have header : Kind.ofHeader? b₇ = some kind := header
  simp only [List.cons_append, List.nil_append]
  rw [scan]
  simp only [header]

theorem scan_of_slip (d : Decoder) {word : Bytes} (eight : word.length = 8)
    (header : headerOf? word = none) (rest : Bytes) :
    d.scan (word ++ rest) =
      if d.slip.misaligned > d.tolerance then
        ({ d.slip with residual := word.drop 2 ++ rest },
          .error (.alignmentLost d.slip.stats.records))
      else d.slip.scan (word.drop 2 ++ rest) := by
  obtain ⟨b₀, b₁, b₂, b₃, b₄, b₅, b₆, b₇, rfl⟩ := exists_of_eight eight
  have header : Kind.ofHeader? b₇ = none := header
  simp only [List.cons_append, List.nil_append, List.drop_succ_cons, List.drop_zero]
  rw [scan]
  simp only [header]
  rfl

/-- **Induction along a scan**: too few bytes for a word, a word with a header, or a word
without one. -/
theorem scan_induction {motive : Decoder → Bytes → Prop}
    (short : ∀ d bytes, bytes.length < 8 → motive d bytes)
    (event : ∀ d word rest kind, word.length = 8 → headerOf? word = some kind →
      motive (d.accept kind (wordOfBytes word)).1 rest → motive d (word ++ rest))
    (slip : ∀ d word rest, word.length = 8 → headerOf? word = none →
      motive d.slip (word.drop 2 ++ rest) → motive d (word ++ rest))
    (d : Decoder) (bytes : Bytes) : motive d bytes := by
  induction size : bytes.length using Nat.strongRecOn generalizing d bytes with
  | _ n ih =>
      subst size
      rcases Nat.lt_or_ge bytes.length 8 with few | many
      · exact short d bytes few
      · have eight : (bytes.take 8).length = 8 := by simp only [List.length_take]; omega
        rw [← List.take_append_drop 8 bytes]
        cases header : headerOf? (bytes.take 8) with
        | some kind =>
            refine event d _ _ kind eight header (ih _ ?_ _ _ rfl)
            simp only [List.length_drop]
            omega
        | none =>
            refine slip d _ _ eight header (ih _ ?_ _ _ rfl)
            simp only [List.length_append, List.length_drop, List.length_take]
            omega

/-- A scan that does not fail, with the decoder that it leaves and the events that it
tells. -/
inductive Scans : Decoder → Bytes → Decoder → List Event → Prop
  | short (d : Decoder) {bytes : Bytes} (few : bytes.length < 8) :
      Scans d bytes { d with residual := bytes } []
  | event {d after : Decoder} {word rest : Bytes} {kind : Kind} {later : List Event}
      (eight : word.length = 8) (header : headerOf? word = some kind)
      (onward : Scans (d.accept kind (wordOfBytes word)).1 rest after later) :
      Scans d (word ++ rest) after ((d.accept kind (wordOfBytes word)).2 :: later)
  | slip {d after : Decoder} {word rest : Bytes} {events : List Event}
      (eight : word.length = 8) (header : headerOf? word = none)
      (onward : Scans d.slip (word.drop 2 ++ rest) after events) :
      Scans d (word ++ rest) after events

/-- A scan by its outcome, for proofs about what a scan leaves and tells. -/
theorem scans_of_scan {d after : Decoder} {bytes : Bytes} {events : List Event}
    (scanned : d.scan bytes = (after, .ok events)) : Scans d bytes after events := by
  induction d, bytes using scan_induction generalizing events with
  | short d bytes few =>
      rw [scan_of_short d few] at scanned
      obtain ⟨rfl, told⟩ := Prod.mk.inj scanned
      obtain rfl := Except.ok.inj told
      exact .short d few
  | event d word rest kind eight header ih =>
      rw [scan_of_header d eight header] at scanned
      obtain ⟨rfl, told⟩ := Prod.mk.inj scanned
      cases outcome : ((d.accept kind (wordOfBytes word)).1.scan rest).2 with
      | error fault =>
          rw [outcome] at told
          cases told
      | ok later =>
          rw [outcome] at told
          obtain rfl := Except.ok.inj told
          exact .event eight header (ih (Prod.ext rfl outcome))
  | slip d word rest eight header ih =>
      rw [scan_of_slip d eight header] at scanned
      split at scanned
      · cases scanned
      · exact .slip eight header (ih scanned)

/-! ## More bytes -/

/-- A scan does not look at what waits in the decoder: its bytes begin with that. -/
theorem scan_withResidual (d : Decoder) (waiting bytes : Bytes) :
    ({ d with residual := waiting } : Decoder).scan bytes = d.scan bytes := by
  induction d, bytes using scan_induction with
  | short d bytes short => rw [scan_of_short _ short, scan_of_short _ short]
  | event d word rest kind eight header ih =>
      have same : ({ d with residual := waiting } : Decoder).accept kind (wordOfBytes word) =
          ({ (d.accept kind (wordOfBytes word)).1 with residual := waiting },
            (d.accept kind (wordOfBytes word)).2) := rfl
      rw [scan_of_header _ eight header, scan_of_header _ eight header, same, ih]
  | slip d word rest eight header ih =>
      have same : ({ d with residual := waiting } : Decoder).slip =
          { d.slip with residual := waiting } := rfl
      rw [scan_of_slip _ eight header, scan_of_slip _ eight header, same, ih]

/-- What a scan comes to if more bytes follow: it goes on with what it left, unless it has
failed. -/
def goesOn (more : Bytes) :
    Decoder × Except HardwareFault (List Event) → Decoder × Except HardwareFault (List Event)
  | (d, .ok events) =>
      ((d.scan (d.residual ++ more)).1, (d.scan (d.residual ++ more)).2.map (events ++ ·))
  | (d, .error fault) => ({ d with residual := d.residual ++ more }, .error fault)

theorem goesOn_map_cons (more : Bytes) (event : Event)
    (scanned : Decoder × Except HardwareFault (List Event)) :
    goesOn more (scanned.1, scanned.2.map (event :: ·)) =
      ((goesOn more scanned).1, (goesOn more scanned).2.map (event :: ·)) := by
  obtain ⟨d, outcome⟩ := scanned
  cases outcome with
  | error fault => rfl
  | ok events =>
      simp only [goesOn, Except.map]
      cases (d.scan (d.residual ++ more)).2 <;> rfl

/-- **A scan goes on where it stopped.** -/
theorem scan_append (d : Decoder) (bytes more : Bytes) :
    d.scan (bytes ++ more) = goesOn more (d.scan bytes) := by
  induction d, bytes using scan_induction with
  | short d bytes short =>
      have nothing : ∀ outcome : Except HardwareFault (List Event),
          outcome.map ([] ++ ·) = outcome := by rintro (_ | _) <;> rfl
      rw [scan_of_short d short, goesOn, nothing]
      exact (scan_withResidual d bytes (bytes ++ more)).symm
  | event d word rest kind eight header ih =>
      rw [List.append_assoc, scan_of_header d eight header, scan_of_header d eight header, ih,
        goesOn_map_cons]
  | slip d word rest eight header ih =>
      rw [List.append_assoc, scan_of_slip d eight header, scan_of_slip d eight header,
        ← List.append_assoc, ih]
      split <;> rfl

/-- A scan that does not fail leaves less than a word. -/
theorem Scans.residual_lt {d after : Decoder} {bytes : Bytes} {events : List Event}
    (scans : d.Scans bytes after events) : after.residual.length < 8 := by
  induction scans with
  | short d few => exact few
  | event eight header onward ih => exact ih
  | slip eight header onward ih => exact ih

/-! ## Bytes and events in the statistics -/

/-- How many bytes a decoder was given: those of its events, those it skipped and those
that wait. -/
def taken (d : Decoder) : Nat :=
  8 * d.stats.records + d.stats.skippedBytes + d.residual.length

theorem taken_accept (d : Decoder) (kind : Kind) (word : UInt64) :
    (d.accept kind word).1.taken = d.taken + 8 := by
  simp only [taken, accept]
  omega

theorem taken_slip (d : Decoder) : d.slip.taken = d.taken + 2 := by
  simp only [taken, slip]
  omega

theorem taken_withResidual (d : Decoder) (bytes : Bytes) :
    ({ d with residual := bytes } : Decoder).taken + d.residual.length =
      d.taken + bytes.length := by
  simp only [taken]
  omega

/-- **Every byte is decoded, skipped or left**, also by a scan that fails. -/
theorem scan_accounts (d : Decoder) (bytes : Bytes) :
    (d.scan bytes).1.taken + d.residual.length = d.taken + bytes.length := by
  induction d, bytes using scan_induction with
  | short d bytes short =>
      rw [scan_of_short d short]
      exact d.taken_withResidual bytes
  | event d word rest kind eight header ih =>
      have kept : (d.accept kind (wordOfBytes word)).1.residual = d.residual := rfl
      rw [taken_accept, kept] at ih
      rw [scan_of_header d eight header, List.length_append]
      exact ih.trans (by omega)
  | slip d word rest eight header ih =>
      have kept : d.slip.residual = d.residual := rfl
      have behind : (word.drop 2 ++ rest).length + 2 = (word ++ rest).length := by
        simp only [List.length_append, List.length_drop]
        omega
      rw [taken_slip, kept] at ih
      rw [scan_of_slip d eight header]
      split
      · have lost := d.slip.taken_withResidual (word.drop 2 ++ rest)
        rw [taken_slip, kept] at lost
        exact lost.trans (by omega)
      · exact ih.trans (by omega)

/-- A scan counts the events that it tells. -/
theorem Scans.records {d after : Decoder} {bytes : Bytes} {events : List Event}
    (scans : d.Scans bytes after events) :
    after.stats.records = d.stats.records + events.length := by
  induction scans with
  | short d few => rfl
  | @event d _ word rest kind later eight header onward ih =>
      have counted : (d.accept kind (wordOfBytes word)).1.stats.records = d.stats.records + 1 := rfl
      rw [ih, counted, List.length_cons]
      omega
  | slip eight header onward ih => exact ih

/-- A scan that fails may have counted events as well. -/
theorem records_le_scan (d : Decoder) (bytes : Bytes) :
    d.stats.records ≤ (d.scan bytes).1.stats.records := by
  induction d, bytes using scan_induction with
  | short d bytes short =>
      have same : (d.scan bytes).1.stats.records = d.stats.records := by rw [scan_of_short d short]
      exact Nat.le_of_eq same.symm
  | event d word rest kind eight header ih =>
      rw [scan_of_header d eight header]
      exact Nat.le_of_succ_le ih
  | slip d word rest eight header ih =>
      rw [scan_of_slip d eight header]
      split
      · exact Nat.le_refl _
      · exact ih

/-! ## Pieces of a stream -/

theorem feed_fst (d : Decoder) (piece : Bytes) :
    (d.feed piece).1 = (d.scan (d.residual ++ piece)).1 := rfl

theorem feed_result (d : Decoder) (piece : Bytes) :
    (d.feed piece).2.1 = (d.scan (d.residual ++ piece)).2 := rfl

/-- The calls with pieces up to the first that fails: the decoder after them, what they
tell together, and the pieces that are left. -/
def feedUntil (d : Decoder) :
    List Bytes → Decoder × Except HardwareFault (List Event) × List Bytes
  | [] => (d, .ok [], [])
  | piece :: rest =>
      match (d.feed piece).2.1 with
      | .error fault => ((d.feed piece).1, .error fault, rest)
      | .ok events =>
          let (last, later, unfed) := (d.feed piece).1.feedUntil rest
          (last, later.map (events ++ ·), unfed)

/-- The decoder after calls with all pieces, failed ones included. -/
def feedAll (d : Decoder) (pieces : List Bytes) : Decoder :=
  pieces.foldl (fun d piece => (d.feed piece).1) d

theorem feed_feedUntil (d : Decoder) (short : d.residual.length < 8) (pieces : List Bytes) :
    (d.feed pieces.flatten).1 =
        { (d.feedUntil pieces).1 with
          residual := (d.feedUntil pieces).1.residual ++ (d.feedUntil pieces).2.2.flatten } ∧
      (d.feed pieces.flatten).2.1 = (d.feedUntil pieces).2.1 ∧
      ∀ events, (d.feedUntil pieces).2.1 = .ok events → (d.feedUntil pieces).2.2 = [] := by
  induction pieces generalizing d with
  | nil =>
      rw [feed_fst, feed_result, List.flatten_nil, List.append_nil, scan_of_short d short]
      exact ⟨by rw [feedUntil, List.flatten_nil, List.append_nil], rfl, fun _ _ => rfl⟩
  | cons piece rest ih =>
      have onward : d.scan (d.residual ++ (piece :: rest).flatten) =
          goesOn rest.flatten (d.scan (d.residual ++ piece)) := by
        rw [List.flatten_cons, ← List.append_assoc, scan_append]
      rw [feed_fst, feed_result, onward, feedUntil, feed_fst, feed_result]
      cases scanned : d.scan (d.residual ++ piece) with
      | mk after outcome =>
          cases outcome with
          | error fault => exact ⟨rfl, rfl, fun events told => (nomatch told)⟩
          | ok events =>
              -- again less than a word waits, which the next call needs
              obtain ⟨state, told, nothing⟩ := ih after (scans_of_scan scanned).residual_lt
              refine ⟨state, congrArg (Except.map (events ++ ·)) told, fun all done => ?_⟩
              cases later : (after.feedUntil rest).2.1 with
              | error fault =>
                  simp only [later] at done
                  cases done
              | ok others => exact nothing others later

theorem taken_feed (d : Decoder) (piece : Bytes) :
    (d.feed piece).1.taken = d.taken + piece.length := by
  have accounts := d.scan_accounts (d.residual ++ piece)
  rw [List.length_append] at accounts
  rw [feed_fst]
  omega

theorem taken_feedAll (d : Decoder) (pieces : List Bytes) :
    (d.feedAll pieces).taken = d.taken + pieces.flatten.length := by
  induction pieces generalizing d with
  | nil => rfl
  | cons piece rest ih =>
      have further := ih (d.feed piece).1
      rw [taken_feed] at further
      rw [List.flatten_cons, List.length_append]
      exact further.trans (Nat.add_assoc ..)

/-- **A stream in pieces is the stream in one.**  Calls that all succeed tell together what
one call with the whole stream tells, and leave the same decoder; so do the calls in front
of a failure, which are pieces of a stream of their own.  Where a call fails, one call
fails in the same way and at the same place, and has the pieces behind it waiting as well.
After any calls, failed ones included, every byte is decoded, skipped or waiting. -/
theorem feed_of_pieces (tolerance : Nat) (pieces : List Bytes) :
    let d : Decoder := { tolerance }
    let (last, outcome, unfed) := d.feedUntil pieces
    (d.feed pieces.flatten).1 = { last with residual := last.residual ++ unfed.flatten } ∧
      (d.feed pieces.flatten).2.1 = outcome ∧
      (∀ events, outcome = .ok events → unfed = []) ∧
      8 * (d.feedAll pieces).stats.records + (d.feedAll pieces).stats.skippedBytes +
          (d.feedAll pieces).residual.length =
        pieces.flatten.length := by
  intro d
  obtain ⟨state, told, nothing⟩ := d.feed_feedUntil (Nat.zero_lt_succ 7) pieces
  refine ⟨state, told, nothing, (d.taken_feedAll pieces).trans ?_⟩
  exact Nat.zero_add _

/-! ## Events that are told -/

/-- A call of `feed`. -/
structure Call where
  decoder : Decoder
  piece : Bytes

namespace Call

def result (c : Call) : Except HardwareFault (List Event) := (c.decoder.feed c.piece).2.1

/-- The events that a call tells, none if it fails. -/
def told (c : Call) : List Event := c.result.toOption.getD []

/-- How many events the statistics count in a call. -/
def counted (c : Call) : Nat :=
  (c.decoder.feed c.piece).1.stats.records - c.decoder.stats.records

/-- How many events a call counts and does not tell. -/
def lost (c : Call) : Nat := if c.result.isOk then 0 else c.counted

theorem told_add_lost (c : Call) :
    c.decoder.stats.records + (c.told.length + c.lost) =
      (c.decoder.feed c.piece).1.stats.records := by
  have grows := c.decoder.records_le_scan (c.decoder.residual ++ c.piece)
  rw [told, lost, counted, result, feed_fst, feed_result]
  cases scanned : c.decoder.scan (c.decoder.residual ++ c.piece) with
  | mk after outcome =>
      rw [scanned] at grows
      dsimp only at grows
      cases outcome with
      | error fault =>
          simp only [Except.toOption, Option.getD_none, List.length_nil, Except.isOk,
            Except.toBool, Bool.false_eq_true, if_false]
          omega
      | ok events =>
          simp only [Except.toOption, Option.getD_some, Except.isOk, Except.toBool, if_true,
            (scans_of_scan scanned).records, Nat.add_zero]

theorem lost_eq_zero_iff (c : Call) :
    c.lost = 0 ↔ ∀ fault, c.result = .error fault → c.counted = 0 := by
  rw [lost]
  cases c.result with
  | error fault => simp [Except.isOk, Except.toBool]
  | ok events => simp [Except.isOk, Except.toBool]

end Call

/-- The calls with all pieces, made one after the other and also after failures. -/
def calls (d : Decoder) : List Bytes → List Call
  | [] => []
  | piece :: rest => ⟨d, piece⟩ :: (d.feed piece).1.calls rest

theorem told_add_lost_calls (d : Decoder) (pieces : List Bytes) :
    d.stats.records +
        (((d.calls pieces).flatMap Call.told).length + ((d.calls pieces).map Call.lost).sum) =
      (d.feedAll pieces).stats.records := by
  induction pieces generalizing d with
  | nil => rfl
  | cons piece rest ih =>
      have first : d.stats.records + ((Call.mk d piece).told.length + (Call.mk d piece).lost) =
          (d.feed piece).1.stats.records := Call.told_add_lost ⟨d, piece⟩
      have further := ih (d.feed piece).1
      have onward : d.feedAll (piece :: rest) = (d.feed piece).1.feedAll rest := rfl
      rw [onward, calls, List.flatMap_cons, List.length_append, List.map_cons, List.sum_cons]
      omega

/-- **Events that are counted and told.**  The events told by the calls that succeed, and
those that failing calls had decoded before they failed, are all that the statistics
count.  So none is lost exactly if no call fails behind an event. -/
theorem told_of_pieces (tolerance : Nat) (pieces : List Bytes) :
    let d : Decoder := { tolerance }
    ((d.calls pieces).flatMap Call.told).length + ((d.calls pieces).map Call.lost).sum =
        (d.feedAll pieces).stats.records ∧
      (((d.calls pieces).flatMap Call.told).length = (d.feedAll pieces).stats.records ↔
        ∀ c ∈ d.calls pieces, ∀ fault, c.result = .error fault → c.counted = 0) := by
  intro d
  have all := d.told_add_lost_calls pieces
  have fresh : d.stats.records = 0 := rfl
  have none' : ((d.calls pieces).map Call.lost).sum = 0 ↔
      ∀ c ∈ d.calls pieces, ∀ fault, c.result = .error fault → c.counted = 0 := by
    simp only [List.sum_eq_zero_iff_forall_eq_nat, List.forall_mem_map, Call.lost_eq_zero_iff]
  refine ⟨by omega, ?_⟩
  rw [← none']
  omega

/-- An event with a word behind it that begins with no header. -/
def brokenOff : Bytes := bytesOfWord (eventWord .data 1 5) ++ bytesOfWord 0

/-- The call fails at the second word, and the event of the first is counted only. -/
theorem told_ne_records :
    ((({ tolerance := 0 } : Decoder).calls [brokenOff]).flatMap Call.told).length ≠
      (({ tolerance := 0 } : Decoder).feedAll [brokenOff]).stats.records := by
  decide

end Decoder

end PulseSequencer.LogicAnalyzer
