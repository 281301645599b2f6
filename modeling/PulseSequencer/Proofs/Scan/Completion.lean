import PulseSequencer.Proofs.Scan.Stopping
import PulseSequencer.Proofs.Telemetry.Cuts
import PulseSequencer.Proofs.Telemetry.Wire

/-
# PulseSequencer.Proofs.Scan.Completion -- a clean run gives every value its point

A step of a scan is sent as its scan value and the counts behind it.  The record of a
step is closed by the scan value of the next one, and that of the last step by the end of
the run (`records_of_run`), whatever pieces the stream comes in.  A sweep makes one point
of every record, and ends with the last: `trace_of_run`.
-/

namespace PulseSequencer.Telemetry

set_option autoImplicit false

/-! ## Steps as they are sent -/

/-- A step of a scan: the word of its value, and the counts of one channel. -/
structure ScanStep where
  word : UInt64
  counts : List UInt64

namespace ScanStep

/-- There are counts, and the wire has room for them. -/
structure Fits (step : ScanStep) : Prop where
  some' : step.counts ≠ []
  short : ∀ n ∈ step.counts, n.toNat < 2 ^ 40

instance (step : ScanStep) : Decidable step.Fits :=
  decidable_of_iff (step.counts ≠ [] ∧ step.counts.all (fun n => n.toNat < 2 ^ 40) = true)
    ⟨fun is => ⟨is.1, fun n there => of_decide_eq_true (List.all_eq_true.1 is.2 n there)⟩,
      fun is => ⟨is.some', List.all_eq_true.2 fun n there => decide_eq_true (is.short n there)⟩⟩

def items (channel : UInt8) (step : ScanStep) : List Item :=
  .scanValue step.word :: step.counts.map (.count channel)

/-- The items of a run. -/
def run (channel : UInt8) (steps : List ScanStep) : List Item :=
  steps.flatMap (items channel) ++ [.endOfRun]

def tokens (channel : UInt8) (step : ScanStep) : List Token :=
  .scanValue step.word :: step.counts.map (.count channel)

/-- What is recorded of a step. -/
def record (channel : UInt8) (step : ScanStep) : Record :=
  { scanValue := some step.word
    counts := step.counts.foldl (fun counts n => addOn channel n counts) [] }

/-- What is recorded of the last step of a run. -/
def finalRecord (channel : UInt8) (step : ScanStep) : Record :=
  { step.record channel with isFinal := true, exitcode := some Variable.endOfRun }

/-- The records of a run: one for each step, the last of them final. -/
def records (channel : UInt8) : List ScanStep → List Record
  | [] => []
  | [last] => [last.finalRecord channel]
  | step :: rest => step.record channel :: records channel rest

end ScanStep

/-! ## Tokens -/

/-- The token of an item that clock overflows leave alone. -/
def Item.steady? : Item → Option Token
  | .count channel n => some (.count channel n)
  | .scanValue value => some (.scanValue value)
  | .endOfRun => some .endOfRun
  | _ => none

theorem tokens_of_reads {overflows : Nat} {items : List Item} {tokens : List Token}
    (reads : Reads overflows items tokens) (steady : ∀ item ∈ items, item.steady?.isSome = true) :
    tokens = items.filterMap Item.steady? := by
  induction reads with
  | nil => rfl
  | overflow _ _ => exact absurd (steady .overflow (List.mem_cons_self ..)) Bool.false_ne_true
  | token reports _ ih =>
      have here := steady _ (List.mem_cons_self ..)
      rw [List.filterMap_cons, ← ih fun item there => steady item (List.mem_cons_of_mem _ there)]
      cases reports <;> first | rfl | exact absurd here Bool.false_ne_true

namespace ScanStep

variable (channel : UInt8)

theorem steady_items (step : ScanStep) :
    (step.items channel).filterMap Item.steady? = step.tokens channel := by
  have counts : ∀ ns : List UInt64, (ns.map (Item.count channel)).filterMap Item.steady? =
      ns.map (Token.count channel) := by
    intro ns
    rw [List.filterMap_map]
    exact congrFun (List.filterMap_eq_map (f := Token.count channel)) ns
  rw [items, List.filterMap_cons, counts]
  rfl

theorem steady_flatMap (steps : List ScanStep) :
    (steps.flatMap (items channel)).filterMap Item.steady? = steps.flatMap (tokens channel) := by
  rw [List.filterMap_flatMap]
  simp only [steady_items]

variable {channel}

theorem mem_items {step : ScanStep} {item : Item} (there : item ∈ step.items channel) :
    item = .scanValue step.word ∨ ∃ n ∈ step.counts, item = .count channel n := by
  rcases List.mem_cons.1 there with value | count
  · exact .inl value
  · obtain ⟨n, inCounts, rfl⟩ := List.mem_map.1 count
    exact .inr ⟨n, inCounts, rfl⟩

/-- What a decoder makes of steps. -/
theorem nextAll_steps (channel : UInt8) {steps : List ScanStep} (fits : ∀ step ∈ steps, step.Fits) :
    ∃ d : Decoder, d.Between 0 ∧ d.residual = [] ∧
      ({} : Decoder).nextAll ((steps.flatMap (items channel)).flatMap Item.words) =
        (d, steps.flatMap (tokens channel), []) := by
  have each : ∀ item ∈ steps.flatMap (items channel),
      item.Fits ∧ item.steady?.isSome = true ∧ item ≠ .overflow := by
    intro item there
    obtain ⟨step, inSteps, inItems⟩ := List.mem_flatMap.1 there
    rcases mem_items inItems with rfl | ⟨n, inCounts, rfl⟩
    · exact ⟨trivial, rfl, nofun⟩
    · exact ⟨(fits step inSteps).short n inCounts, rfl, nofun⟩
  have none' : (steps.flatMap (items channel)).count .overflow = 0 :=
    List.count_eq_zero.2 fun there => (each _ there).2.2 rfl
  have start : ({} : Decoder).Between 0 := ⟨rfl, rfl⟩
  have fits' : ∀ item ∈ steps.flatMap (items channel), item.Fits :=
    fun item there => (each item there).1
  obtain ⟨d, read, reads, taken, between, residual⟩ := start.reads fits'
    (by rw [none']; exact Nat.zero_le _)
  rw [none'] at between
  rw [tokens_of_reads reads fun item there => (each item there).2.1, steady_flatMap] at taken
  exact ⟨d, between, residual, taken⟩

/-! ## Records -/

theorem takeAll_counts (r : Record) (offset : UInt64) (channel : UInt8) (counts : List UInt64) :
    r.takeAll offset (counts.map (.count channel)) =
      ({ r with counts := counts.foldl (fun counts n => addOn channel n counts) r.counts }, []) := by
  induction counts generalizing r with
  | nil => rfl
  | cons n rest ih =>
      rw [List.map_cons, Record.takeAll, ih]
      rfl

/-- The scan value of a step closes the record before it. -/
theorem takeAll_step {r : Record} (offset : UInt64) (channel : UInt8) (step : ScanStep)
    (begun : r.scanValue.isSome = true) :
    r.takeAll offset (step.tokens channel) = (step.record channel, [r]) := by
  rw [tokens, Record.takeAll, Record.take, if_pos begun, takeAll_counts]
  rfl

/-- Each record is closed by what is behind it. -/
theorem takeAll_steps (offset : UInt64) (channel : UInt8) (step : ScanStep)
    (rest : List ScanStep) :
    ((step.record channel).takeAll offset (rest.flatMap (tokens channel) ++ [.endOfRun])).2 =
      records channel (step :: rest) := by
  induction rest generalizing step with
  | nil => rfl
  | cons next more ih =>
      rw [List.flatMap_cons, List.append_assoc, Record.takeAll_append,
        takeAll_step offset channel next rfl, ih]
      rfl

theorem takeAll_run (offset : UInt64) (channel : UInt8) (steps : List ScanStep)
    (some' : steps ≠ []) :
    (({} : Record).takeAll offset (steps.flatMap (tokens channel) ++ [.endOfRun])).2 =
      records channel steps := by
  cases steps with
  | nil => exact absurd rfl some'
  | cons step rest =>
      have first : ({} : Record).takeAll offset (step.tokens channel) = (step.record channel, []) := by
        rw [tokens, Record.takeAll, Record.take, if_neg (by decide), takeAll_counts]
        rfl
      rw [List.flatMap_cons, List.append_assoc, Record.takeAll_append, first, takeAll_steps]
      rfl

/-- A step has its own counts. -/
theorem getElem?_record (channel : UInt8) (step : ScanStep) :
    (step.record channel).counts[channel.toNat]?.getD [] = step.counts := by
  have adds : ∀ (ns : List UInt64) (all : List (List UInt64)),
      (ns.foldl (fun counts n => addOn channel n counts) all)[channel.toNat]?.getD [] =
        all[channel.toNat]?.getD [] ++ ns := by
    intro ns
    induction ns with
    | nil => simp
    | cons n rest ih =>
        intro all
        rw [List.foldl_cons, ih, addOn, getElem?_onChannel_self, Option.getD_some,
          List.append_assoc, List.singleton_append]
  rw [record, adds]
  rfl

/-! ## Streams -/

open Telemetry.Assembler

theorem words_run (channel : UInt8) (steps : List ScanStep) :
    (run channel steps).flatMap Item.words =
      (steps.flatMap (items channel)).flatMap Item.words ++ [Variable.endOfRun] := by
  rw [run, List.flatMap_append]
  rfl

/-- No step ends the run. -/
theorem goesOn_tokens (channel : UInt8) (steps : List ScanStep) :
    (steps.flatMap (tokens channel)).any Token.endsRun = false := by
  refine List.any_eq_false.2 fun token there => ?_
  obtain ⟨step, _, inTokens⟩ := List.mem_flatMap.1 there
  rcases List.mem_cons.1 inTokens with rfl | count
  · exact Bool.false_ne_true
  · obtain ⟨n, _, rfl⟩ := List.mem_map.1 count
    exact Bool.false_ne_true

section Fits

variable {a : Assembler} {channel : UInt8} {steps : List ScanStep}
  (decoder : a.decoder = {}) (fits : ∀ step ∈ steps, step.Fits)
include decoder fits

/-- A run ends with its last word only. -/
theorem singleRun_run :
    a.SingleRun (bytesOfWords ((run channel steps).flatMap Item.words)) := by
  obtain ⟨d, _, _, taken⟩ := nextAll_steps channel fits
  rw [SingleRun, decoder, Decoder.completeWords_bytesOfWords rfl, words_run]
  intro n inside
  rw [List.length_append, List.length_singleton] at inside
  rw [List.take_append_of_le_length (Nat.le_of_lt_succ inside)]
  generalize (steps.flatMap (items channel)).flatMap Item.words = words at taken
  rw [← List.take_append_drop n words, Decoder.nextAll_append] at taken
  have tokens := congrArg (fun result => result.2.1.any Token.endsRun) taken
  rw [goesOn_tokens, List.any_append, Bool.or_eq_false_iff] at tokens
  exact tokens.1

/-- The tokens of a run in one piece. -/
theorem tokensOf_run :
    a.tokensOf (bytesOfWords ((run channel steps).flatMap Item.words)) =
      steps.flatMap (tokens channel) ++ [.endOfRun] := by
  obtain ⟨d, between, _, taken⟩ := nextAll_steps channel fits
  rw [tokensOf_bytesOfWords decoder, words_run, Decoder.nextAll_append, taken,
    between.single (show d.first Variable.endOfRun = (d, some .endOfRun) from rfl)]

/-- **The records of a clean run**: one for each step, in whatever pieces the run comes. -/
theorem records_of_run (current : a.current = {}) (some' : steps ≠ []) {pieces : List Piece}
    (cut : pieces.flatMap Piece.bytes = bytesOfWords ((run channel steps).flatMap Item.words)) :
    (a.feedPieces pieces).2 = records channel steps := by
  have single : a.SingleRun (pieces.flatMap Piece.bytes) :=
    cut ▸ singleRun_run decoder fits
  have harmless := harmlessCuts_of_singleRun a pieces single
  cases pieces with
  | nil =>
      have long := congrArg List.length cut
      rw [words_run, length_bytesOfWords, List.length_append] at long
      simp at long
  | cons piece others =>
      have whole := congrArg Prod.snd (seen_feedPieces_of_harmlessCuts a piece others 0 harmless)
      rw [List.flatMap_cons] at cut
      rw [cut, seen_feedPiece, tokensOf_run decoder fits, current, takeAll_run _ _ _ some'] at whole
      exact whole

end Fits

end ScanStep

end PulseSequencer.Telemetry

namespace PulseSequencer

open Telemetry

/-- The mean of counts. -/
def meanCount (counts : List UInt64) : Float :=
  counts.foldl (fun sum n => sum + n.toFloat) 0.0 / Float.ofNat counts.length

namespace Sweep

/-- Accounts for records in order. -/
def onRecords (s : Sweep) (ms : List Measurement) : Except ScanError Sweep :=
  ms.foldlM (fun s m => (s.onRecord m).map Prod.fst) s

/-- A sweep over the mean of counts that has seen no record yet. -/
structure Unused (s : Sweep) (channel : UInt8) : Prop where
  reduction : s.reduction = .meanCount channel.toNat
  points : s.trace = {}
  received : s.received = 0
  handler : s.handler = { awaited := true }

/-- Each scanned value has a place on the axis. -/
def Plots (s : Sweep) : Prop := ∀ value ∈ s.values, ∃ x, s.axis.apply value = .ok x

section Unused

variable {s t : Sweep} {channel : UInt8}

theorem unused_make {shuffle : Shuffle} {scan : Scan} {p : Program}
    (made : (make scan p (.meanCount channel.toNat) { awaited := true } shuffle).1 = .ok s) :
    s.Unused channel := by
  unfold make at made
  split at made
  · cases made
  · split at made
    · cases made
    · obtain rfl := Except.ok.inj made
      exact ⟨rfl, rfl, rfl, rfl⟩

theorem Unused.withGates {gates : GateSequences} (unused : s.Unused channel)
    (sent : s.withGates gates = .ok t) : t.Unused channel := by
  obtain ⟨steps, _, result⟩ := bind_eq_ok.1 sent
  obtain rfl := Except.ok.inj result
  exact ⟨unused.reduction, unused.points, unused.received, unused.handler⟩

theorem Unused.nextBurst (unused : s.Unused channel) : s.nextBurst.1.Unused channel := by
  unfold Sweep.nextBurst
  split
  · exact unused
  · exact ⟨unused.reduction, unused.points, unused.received, unused.handler⟩

end Unused

/-- A sweep on its way through the values. -/
structure Underway (s : Sweep) (channel : UInt8) : Prop where
  reduction : s.reduction = .meanCount channel.toNat
  unlimited : s.trace.limit = none
  handler : s.handler = { awaited := true }

theorem points_addPoint {s : Sweep} {channel : UInt8} (underway : s.Underway channel) (p : Point) :
    (s.addPoint p).trace.points = s.trace.points ++ [p] := by
  rw [trace_addPoint underway.unlimited]

theorem Underway.addPoint {s : Sweep} {channel : UInt8} (underway : s.Underway channel) (p : Point) :
    (s.addPoint p).Underway channel where
  reduction := underway.reduction
  unlimited := by rw [trace_addPoint underway.unlimited]
  handler := underway.handler

/-- The end is told once. -/
theorem Underway.stop {s : Sweep} {channel : UInt8} (underway : s.Underway channel)
    (reason : StopReason) :
    (s.stop reason).handler = { awaited := false, reason := some reason, told := [reason] } := by
  rw [Sweep.stop, underway.handler]
  rfl

section Records

variable {s : Sweep} {channel : UInt8} {m : Measurement} {counts : List UInt64}

/-- A record with counts makes a point of the next value. -/
theorem Underway.onRecord (underway : s.Underway channel) {value : Quantity} {x : Float}
    (next : s.values[s.received]? = some value) (placed : s.axis.apply value = .ok x)
    (counted : m.counts[channel.toNat]?.getD [] = counts) (some' : counts ≠ []) :
    s.onRecord m = .ok
      (if m.isFinal then (s.addPoint (x, meanCount counts)).stop m.stopReason
       else if s.received + 1 = s.values.length then
         (s.addPoint (x, meanCount counts)).stop .completed
       else s.addPoint (x, meanCount counts), some (x, meanCount counts)) := by
  have open' : s.isFinished = false := by
    rw [isFinished, underway.handler]
    rfl
  have reduced : s.reduce? m = some (meanCount counts) := by
    cases counts with
    | nil => exact absurd rfl some'
    | cons n rest =>
        rw [reduce?, underway.reduction, Reduction.apply, counted]
        rfl
  have point : s.point? m = .ok (some (x, meanCount counts)) := by
    rw [point?, next, reduced]
    simp only [placed]
    rfl
  rw [Sweep.onRecord, if_neg (by rw [open']; exact Bool.false_ne_true), point]
  cases m.isFinal with
  | true => rfl
  | false =>
      by_cases all : s.received + 1 = s.values.length
      · simp only [all, if_true]
        exact if_pos all
      · simp only [all, if_false]
        exact if_neg all

section Step

variable {step : ScanStep} {value : Quantity} {x : Float} (underway : s.Underway channel)
  (fits : step.Fits) (next : s.values[s.received]? = some value)
  (placed : s.axis.apply value = .ok x)
include underway fits next placed

/-- The record of a step, as long as values are left behind it. -/
theorem onRecord_record (more : s.received + 1 ≠ s.values.length) :
    s.onRecord (step.record channel).measurement =
      .ok (s.addPoint (x, meanCount step.counts), some (x, meanCount step.counts)) := by
  have taken := underway.onRecord (m := (step.record channel).measurement) next placed
    (ScanStep.getElem?_record channel step) fits.some'
  rw [if_neg more] at taken
  exact taken

/-- The final record ends the sweep as completed. -/
theorem onRecord_finalRecord :
    s.onRecord (step.finalRecord channel).measurement =
      .ok ((s.addPoint (x, meanCount step.counts)).stop .completed,
        some (x, meanCount step.counts)) :=
  underway.onRecord (m := (step.finalRecord channel).measurement) next placed
    (ScanStep.getElem?_record channel step) fits.some'

end Step

end Records

/-- **A sweep over the records of steps**: a point for each, in order, and the end with the
last. -/
theorem Underway.completes {channel : UInt8} {steps : List ScanStep} {s : Sweep}
    (underway : s.Underway channel) (some' : steps ≠ []) (fits : ∀ step ∈ steps, step.Fits)
    (plots : s.Plots) (size : s.received + steps.length = s.values.length) :
    ∃ (t : Sweep) (points : List Point),
      s.onRecords ((ScanStep.records channel steps).map Record.measurement) = .ok t ∧
      t.trace.points = s.trace.points ++ points ∧ points.length = steps.length ∧
      (∀ (i : Nat) (value : Quantity) (step : ScanStep), s.values[s.received + i]? = some value →
        steps[i]? = some step →
          ∃ x, s.axis.apply value = .ok x ∧ points[i]? = some (x, meanCount step.counts)) ∧
      t.handler = { awaited := false, reason := some .completed, told := [.completed] } := by
  induction steps generalizing s with
  | nil => exact absurd rfl some'
  | cons step rest ih =>
      have inside : s.received < s.values.length := by
        rw [List.length_cons] at size
        omega
      obtain ⟨x, placed⟩ := plots s.values[s.received] (List.getElem_mem inside)
      have next := List.getElem?_eq_getElem inside
      have here := fits step (List.mem_cons_self ..)
      cases rest with
      | nil =>
          refine ⟨(s.addPoint (x, meanCount step.counts)).stop .completed,
            [(x, meanCount step.counts)], ?_, points_addPoint underway _, rfl, ?_,
            (underway.addPoint _).stop .completed⟩
          · rw [onRecords, ScanStep.records, List.map_cons, List.map_nil, List.foldlM_cons,
              onRecord_finalRecord underway here next placed]
            rfl
          · intro i value other found there
            obtain rfl : i = 0 := by
              have := (List.getElem?_eq_some_iff.1 there).1
              simpa using this
            obtain rfl := Option.some.inj there
            obtain rfl := Option.some.inj (next.symm.trans found)
            exact ⟨x, placed, rfl⟩
      | cons following more =>
          have left : s.received + 1 ≠ s.values.length := by
            simp only [List.length_cons] at size
            omega
          obtain ⟨t, points, ran, traced, count, each, ended⟩ :=
            ih (underway.addPoint (x, meanCount step.counts)) (List.cons_ne_nil _ _)
              (fun other there => fits other (List.mem_cons_of_mem _ there)) plots
              ((Nat.add_right_comm _ _ _).trans size)
          refine ⟨t, (x, meanCount step.counts) :: points, ?_, ?_, congrArg (· + 1) count, ?_, ended⟩
          · rw [onRecords, ScanStep.records, List.map_cons, List.foldlM_cons,
              onRecord_record underway here next placed left]
            exact ran
            exact List.cons_ne_nil _ _
          · rw [traced, points_addPoint underway, List.append_assoc, List.singleton_append]
          · intro i value other found there
            cases i with
            | zero =>
                obtain rfl := Option.some.inj there
                obtain rfl := Option.some.inj (next.symm.trans found)
                exact ⟨x, placed, rfl⟩
            | succ i =>
                rw [← Nat.add_assoc, Nat.add_right_comm] at found
                exact each i value other found there

/-- **A clean run gives every value its point.**  Whatever pieces the run comes in, the
trace has one point for each value, in order: its place on the axis and the mean of its
counts.  Behind the last one the sweep is finished as completed, which is told once. -/
theorem trace_of_run {s : Sweep} {channel : UInt8} (unused : s.Unused channel)
    (values : s.values ≠ []) (plots : s.Plots) {steps : List ScanStep}
    (size : steps.length = s.values.length) (fits : ∀ step ∈ steps, step.Fits) {a : Assembler}
    (decoder : a.decoder = {}) (current : a.current = {}) {pieces : List Assembler.Piece}
    (cut : pieces.flatMap Assembler.Piece.bytes =
      bytesOfWords ((ScanStep.run channel steps).flatMap Item.words)) :
    ∃ t : Sweep, s.onRecords ((a.feedPieces pieces).2.map Record.measurement) = .ok t ∧
      t.trace.points.length = s.values.length ∧
      (∀ (i : Nat) (value : Quantity) (step : ScanStep), s.values[i]? = some value →
        steps[i]? = some step → ∃ x, s.axis.apply value = .ok x ∧
          t.trace.points[i]? = some (x, meanCount step.counts)) ∧
      t.isFinished = true ∧ t.handler.reason = some .completed ∧
      t.handler.told = [.completed] := by
  have underway : s.Underway channel :=
    ⟨unused.reduction, by rw [unused.points], unused.handler⟩
  have some' : steps ≠ [] := by
    rintro rfl
    exact values (List.length_eq_zero_iff.1 size.symm)
  obtain ⟨t, points, ran, traced, count, each, ended⟩ := underway.completes some' fits plots
    (by rw [unused.received, size, Nat.zero_add])
  rw [unused.received] at each
  rw [unused.points] at traced
  obtain rfl : t.trace.points = points := traced
  refine ⟨t, ?_, count.trans size, fun i value step found there => ?_, ?_, ?_, ?_⟩
  · rw [ScanStep.records_of_run decoder fits current some' cut]
    exact ran
  · exact each i value step (by rwa [Nat.zero_add]) there
  · rw [isFinished, ended]
    rfl
  · rw [ended]
  · rw [ended]

/-- A sweep over three plain numbers. -/
def threeValues : Sweep where
  parameter := "freq"
  values := [.plain 1, .plain 2, .plain 4]
  updates := []
  stream := .ofWords [] wordsPerUpdate
  axis := {}
  reduction := .meanCount 3
  handler := { awaited := true }

/-- Steps whose words look like markers, and the greatest count. -/
def threeSteps : List ScanStep :=
  [⟨0xffffffffffffffff, [5, 7]⟩, ⟨0xfffc000000000000, [0]⟩, ⟨3, [0xffffffffff, 1, 2]⟩]

/-- The run in one byte, and the rest of it. -/
def twoPieces : List Assembler.Piece :=
  let bytes := bytesOfWords ((ScanStep.run 3 threeSteps).flatMap Item.words)
  [⟨0, bytes.take 1⟩, ⟨1, bytes.drop 1⟩]

theorem trace_of_run_threeValues :
    threeValues.Unused 3 ∧ threeValues.values ≠ [] ∧ threeValues.Plots ∧
    threeSteps.length = threeValues.values.length ∧ (∀ step ∈ threeSteps, step.Fits) ∧
    ∃ t : Sweep,
      threeValues.onRecords ((Assembler.feedPieces {} twoPieces).2.map Record.measurement) = .ok t ∧
      t.trace.points.length = 3 ∧ t.isFinished = true ∧ t.handler.told = [.completed] := by
  have unused : threeValues.Unused 3 := ⟨rfl, rfl, rfl, rfl⟩
  have some' : threeValues.values ≠ [] := List.cons_ne_nil _ _
  have plots : threeValues.Plots := fun value _ => ⟨value.magnitude, rfl⟩
  have size : threeSteps.length = threeValues.values.length := rfl
  have fits : ∀ step ∈ threeSteps, step.Fits := by decide
  have cut : twoPieces.flatMap Assembler.Piece.bytes =
      bytesOfWords ((ScanStep.run 3 threeSteps).flatMap Item.words) := by decide
  obtain ⟨t, ran, points, _, finished, _, told⟩ :=
    trace_of_run unused some' plots size fits (a := {}) rfl rfl cut
  exact ⟨unused, some', plots, size, fits, t, ran, points, finished, told⟩

end Sweep

end PulseSequencer
