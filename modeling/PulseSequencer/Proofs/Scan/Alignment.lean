import PulseSequencer.Proofs.Scan.Stopping
import PulseSequencer.Proofs.Table

/-
# PulseSequencer.Proofs.Scan.Alignment -- points, records and steps belong together

A sweep counts its values by the points that it has.  Whatever a call does, it either leaves
trace and count alone, or it accepts a record: then the record gets the point of the next
value (`Sweep.call_cases`).  So the points stand in the order of the records that were accepted,
and of the values (`Aligned`).  The steps of the stream are made from the values beforehand, one
for each (`Built.charted`), and no call changes them.

Main statement: `aligned_of_calls`.
-/

namespace PulseSequencer

set_option autoImplicit false

/-- The number that a record has in a trace; one without data is not a number. -/
def Reduction.Gives (r : Reduction) (m : Measurement) (y : Float) : Prop :=
  match r.apply m with
  | some number => y = number
  | none => y.isNaN = true

/-- An update that sets a parameter to a value, or changes nothing if the program does not know
the parameter. -/
def Program.Sets (p : Program) (parameter : String) (value : Quantity) (update : List UInt64) :
    Prop :=
  match p.find? parameter with
  | some v => ∃ word, v.encodeValue value = .ok word ∧ update = [UInt64.ofNat v.address, word]
  | none => update = zeroUpdate

/-- Updates of two words each that set a parameter to the values one by one. -/
structure Program.SetsAll (p : Program) (parameter : String) (values : List Quantity)
    (updates : List (List UInt64)) : Prop where
  length : updates.length = values.length
  sized : ∀ update ∈ updates, update.length = 2
  each : ∀ (k : Nat) (value : Quantity), values[k]? = some value →
    ∃ update, updates[k]? = some update ∧ p.Sets parameter value update

/-! ## Steps -/

/-- Groups of equal size are cut from their words. -/
theorem GateSequences.chunks_flatten {α : Type} {size : Nat} {groups : List (List α)}
    (sized : ∀ group ∈ groups, group.length = size + 1) :
    chunks (size + 1) groups.flatten = groups := by
  induction groups with
  | nil => rw [List.flatten_nil, chunks]
  | cons group rest ih =>
      obtain ⟨here, others⟩ := List.forall_mem_cons.1 sized
      cases group with
      | nil => exact absurd here (Nat.succ_ne_zero size).symm
      | cons x more =>
          have length : more.length = size := Nat.succ.inj here
          rw [List.flatten_cons, List.cons_append, chunks, Nat.add_sub_cancel,
            List.take_left' length, List.drop_left' length, ih others]

theorem Program.setsAll_of_updatePairs {p : Program} {parameter : String} {values : List Quantity}
    {words : List UInt64} (made : (updatePairs p parameter values).1 = .ok words) :
    ∃ updates, words = updates.flatten ∧ p.SetsAll parameter values updates := by
  rw [updatePairs] at made
  cases known : p.find? parameter with
  | none =>
      rw [known] at made
      obtain rfl := Except.ok.inj made
      refine ⟨values.map fun _ => zeroUpdate, rfl, List.length_map _, fun update there => ?_,
        fun k value found => ⟨zeroUpdate, by rw [List.getElem?_map, found]; rfl, ?_⟩⟩
      · obtain ⟨_, _, rfl⟩ := List.mem_map.1 there
        rfl
      · rw [Sets, known]
  | some v =>
      rw [known] at made
      have found : p.findVariable parameter = .ok v := by rw [findVariable, known]
      rw [scanCode, found] at made
      obtain ⟨_, same, made⟩ := bind_eq_ok.1 made
      obtain rfl := Except.ok.inj same
      obtain ⟨updates, mapped, made⟩ := bind_eq_ok.1 made
      obtain rfl := Except.ok.inj made
      have each : ∀ value update, (do
          return [UInt64.ofNat v.address, ← (v.encodeValue value).mapError ProgramError.encoding] :
            Except ProgramError (List UInt64)) = .ok update →
          ∃ word, v.encodeValue value = .ok word ∧ update = [UInt64.ofNat v.address, word] := by
        intro value update set
        obtain ⟨word, encoded, set⟩ := bind_eq_ok.1 set
        exact ⟨word, ok_of_mapError encoded, (Except.ok.inj set).symm⟩
      refine ⟨updates, rfl, length_of_mapM mapped, fun update there => ?_, fun k value found => ?_⟩
      · obtain ⟨k, found⟩ := List.mem_iff_getElem?.1 there
        obtain ⟨value, _, set⟩ := getElem?_of_result mapped found
        obtain ⟨word, _, rfl⟩ := each value update set
        rfl
      · obtain ⟨update, set, there⟩ := getElem?_of_mapM mapped found
        refine ⟨update, there, ?_⟩
        rw [Sets, known]
        exact each value update set

namespace Sweep

/-! ## Sweeps that are made -/

/-- The sweeps over a scan, with the gate sequences that go with their steps. -/
inductive Built (shuffle : Shuffle) (scan : Scan) (p : Program) (reduction : Reduction) :
    Option GateSequences → Sweep → Prop
  | make {handler : StopHandler} {s : Sweep}
      (made : (Sweep.make scan p reduction handler shuffle).1 = .ok s) :
      Built shuffle scan p reduction none s
  | withGates {before : Option GateSequences} {gates : GateSequences} {s t : Sweep}
      (built : Built shuffle scan p reduction before s) (sent : s.withGates gates = .ok t) :
      Built shuffle scan p reduction (some gates) t

/-- The words that go with a step. -/
def payload (gates : Option GateSequences) (step : Nat) : List UInt64 :=
  (gates.bind fun g => g.payload? step).getD []

/-- A sweep with its steps before it: no record was seen yet, and each value has its step. -/
structure Charted (shuffle : Shuffle) (scan : Scan) (p : Program) (reduction : Reduction)
    (gates : Option GateSequences) (s : Sweep) : Prop where
  values : scan.values shuffle = .ok s.values
  axis : s.axis = plotAxis scan
  reduction : s.reduction = reduction
  trace : s.trace = {}
  received : s.received = 0
  updates : ∃ updates, s.updates = updates.flatten ∧
    p.SetsAll scan.parameter s.values updates ∧
    s.stream.source = .steps (updates.zipIdx.map fun (update, k) => update ++ payload gates k)

variable {shuffle : Shuffle} {scan : Scan} {p : Program} {reduction : Reduction}
  {gates : Option GateSequences} {s t : Sweep}

theorem Built.charted (built : Built shuffle scan p reduction gates s) :
    Charted shuffle scan p reduction gates s := by
  induction built with
  | make made =>
      unfold Sweep.make at made
      split at made
      · cases made
      · rename_i values arranged
        split at made
        · cases made
        · rename_i words notices updated
          obtain rfl := Except.ok.inj made
          obtain ⟨updates, rfl, sets⟩ :=
            Program.setsAll_of_updatePairs (congrArg Prod.fst updated)
          refine ⟨arranged, rfl, rfl, rfl, rfl, updates, rfl, sets, ?_⟩
          show UpdateSource.steps (GateSequences.chunks 2 updates.flatten) = _
          rw [GateSequences.chunks_flatten sets.sized]
          simp [payload]
  | @withGates before g s t _ sent ih =>
      obtain ⟨steps, interleaved, sent⟩ := bind_eq_ok.1 sent
      obtain rfl := Except.ok.inj sent
      obtain ⟨updates, words, sets, _⟩ := ih.updates
      refine ⟨ih.values, ih.axis, ih.reduction, ih.trace, ih.received, updates, words, sets, ?_⟩
      rw [words, GateSequences.interleave, wordsPerUpdate,
        GateSequences.chunks_flatten sets.sized] at interleaved
      dsimp only at interleaved
      split at interleaved
      · cases interleaved
      · rw [← Except.ok.inj interleaved]
        rfl

/-- The step of a value. -/
theorem Charted.step (charted : Charted shuffle scan p reduction gates s) :
    ∃ steps, s.stream.source = .steps steps ∧ steps.length = s.values.length ∧
      ∀ (k : Nat) (value : Quantity), s.values[k]? = some value → ∃ update,
        p.Sets scan.parameter value update ∧ steps[k]? = some (update ++ payload gates k) := by
  obtain ⟨updates, _, all, source⟩ := charted.updates
  refine ⟨_, source, by rw [List.length_map, List.length_zipIdx, all.length],
    fun k value found => ?_⟩
  obtain ⟨update, there, sets⟩ := all.each k value found
  exact ⟨update, sets, by simp [List.getElem?_zipIdx, there]⟩

end Sweep

/-! ## Calls -/

/-- The record that a call accepts: it gets a point. -/
def Generator.accepted? (g : Generator) : Call → Option Measurement
  | .record m => if (g.call (.record m)).2.point.isSome then some m else none
  | _ => none

/-- The records that calls accept. -/
def Generator.accepted : Generator → List Call → List Measurement
  | _, [] => []
  | g, c :: rest => (g.accepted? c).toList ++ accepted (g.call c).1 rest

namespace Sweep

open Generator (Call accepted)

variable {s t u : Sweep} {m : Measurement}

/-- What no call changes. -/
structure SameCourse (s t : Sweep) : Prop where
  values : t.values = s.values
  axis : t.axis = s.axis
  reduction : t.reduction = s.reduction
  source : t.stream.source = s.stream.source

theorem SameCourse.trans (first : SameCourse s t) (second : SameCourse t u) : SameCourse s u :=
  ⟨second.values.trans first.values, second.axis.trans first.axis,
    second.reduction.trans first.reduction, second.source.trans first.source⟩

/-- A sweep further on its course with the same points. -/
structure SamePoints (s t : Sweep) : Prop extends SameCourse s t where
  trace : t.trace = s.trace
  received : t.received = s.received

theorem SamePoints.refl (s : Sweep) : SamePoints s s := ⟨⟨rfl, rfl, rfl, rfl⟩, rfl, rfl⟩

theorem samePoints_stop (s : Sweep) (reason : StopReason) : SamePoints s (s.stop reason) :=
  ⟨⟨rfl, rfl, rfl, rfl⟩, rfl, rfl⟩

theorem samePoints_nextBurst (s : Sweep) : SamePoints s s.nextBurst.1 := by
  unfold nextBurst
  split
  · exact .refl s
  · exact ⟨⟨rfl, rfl, rfl, rfl⟩, rfl, rfl⟩

theorem sameCourse_addPoint (s : Sweep) (point : Point) : SameCourse s (s.addPoint point) where
  values := rfl
  axis := rfl
  reduction := rfl
  source := by
    show s.stream.stepCompleted.1.source = s.stream.source
    unfold UpdateStream.stepCompleted
    split <;> rfl

/-- A point belongs to the next value and to its record. -/
theorem of_point? {point : Point} (plotted : s.point? m = .ok (some point)) :
    ∃ value, s.values[s.received]? = some value ∧ s.axis.apply value = .ok point.1 ∧
      s.reduction.Gives m point.2 := by
  unfold point? at plotted
  split at plotted
  · rename_i value y next reduced
    obtain ⟨x, placed, plotted⟩ := bind_eq_ok.1 plotted
    obtain rfl := Option.some.inj (Except.ok.inj plotted)
    refine ⟨value, next, placed, ?_⟩
    rw [reduce?] at reduced
    unfold Reduction.Gives
    cases data : s.reduction.apply m with
    | some number =>
        rw [data] at reduced
        exact (Option.some.inj reduced).symm
    | none =>
        rw [data] at reduced
        dsimp only at reduced
        split at reduced
        · cases reduced
        · rw [← Option.some.inj reduced]
          show (0.0 / 0.0 : Float).isNaN = true
          decide
  · cases plotted

/-- A record fails if the next value has no place on the axis. -/
theorem of_point?_error {e : ScanError} (failed : s.point? m = .error e) :
    ∃ value, s.values[s.received]? = some value ∧ s.axis.apply value = .error e := by
  unfold point? at failed
  split at failed
  · rename_i value y next _
    cases placed : s.axis.apply value with
    | ok x =>
        rw [placed] at failed
        cases failed
    | error other =>
        rw [placed] at failed
        obtain rfl := Except.error.inj failed
        exact ⟨value, next, placed⟩
  · cases failed

/-- What becomes of a record. -/
theorem onRecord_cases (s : Sweep) (m : Measurement) :
    (∃ e value, s.onRecord m = .error e ∧ s.values[s.received]? = some value ∧
      s.axis.apply value = .error e) ∨
    (∃ t, s.onRecord m = .ok (t, none) ∧ SamePoints s t) ∨
    ∃ t point value, s.onRecord m = .ok (t, some point) ∧ s.values[s.received]? = some value ∧
      s.axis.apply value = .ok point.1 ∧ s.reduction.Gives m point.2 ∧
      SamePoints (s.addPoint point) t := by
  cases finished : s.isFinished with
  | true => exact .inr (.inl ⟨s, onRecord_of_finished finished, .refl s⟩)
  | false =>
      cases plotted : s.point? m with
      | error e =>
          obtain ⟨value, next, misplaced⟩ := of_point?_error plotted
          exact .inl ⟨e, value, by rw [onRecord, finished, plotted]; rfl, next, misplaced⟩
      | ok found =>
          have done := onRecord_of_point finished plotted
          have ended : SamePoints (s.plot found)
              (((s.plot found).ending? m).elim (s.plot found) (s.plot found).stop) := by
            cases (s.plot found).ending? m with
            | none => exact .refl _
            | some reason => exact samePoints_stop _ reason
          cases found with
          | none => exact .inr (.inl ⟨_, done, ended⟩)
          | some point =>
              obtain ⟨value, next, placed, gives⟩ := of_point? plotted
              exact .inr (.inr ⟨_, point, value, done, next, placed, gives, ended⟩)

/-- **What a call does.**  It leaves the points alone, or it accepts a record, which gets the
point of the next value. -/
theorem call_cases (s : Sweep) (c : Call) : ∃ t, ((Generator.sweep s).call c).1 = .sweep t ∧
    ((Generator.sweep s).accepted? c = none ∧ SamePoints s t ∨
      ∃ m point value, (Generator.sweep s).accepted? c = some m ∧
        s.values[s.received]? = some value ∧ s.axis.apply value = .ok point.1 ∧
        s.reduction.Gives m point.2 ∧ SamePoints (s.addPoint point) t) := by
  cases c with
  | requestStop => exact ⟨_, rfl, .inl ⟨rfl, samePoints_stop s _⟩⟩
  | nextBurst => exact ⟨_, rfl, .inl ⟨rfl, samePoints_nextBurst s⟩⟩
  | withWindow words => exact ⟨_, rfl, .inl ⟨rfl, ⟨rfl, rfl, rfl, rfl⟩, rfl, rfl⟩⟩
  | record m =>
      obtain ⟨e, _, failed, _⟩ | ⟨t, done, same⟩ |
        ⟨t, point, value, done, next, placed, gives, same⟩ := onRecord_cases s m
      · have call : (Generator.sweep s).call (.record m) = (.sweep s, {}) := by
          rw [Generator.call, Generator.onRecord, failed]
          rfl
        exact ⟨s, by rw [call], .inl ⟨by rw [Generator.accepted?, call]; rfl, .refl s⟩⟩
      · have call : (Generator.sweep s).call (.record m) = (.sweep t, {}) := by
          rw [Generator.call, Generator.onRecord, done]
          rfl
        exact ⟨t, by rw [call], .inl ⟨by rw [Generator.accepted?, call]; rfl, same⟩⟩
      · have call : (Generator.sweep s).call (.record m) = (.sweep t, { point := some point }) := by
          rw [Generator.call, Generator.onRecord, done]
          rfl
        exact ⟨t, by rw [call], .inr ⟨m, point, value, by rw [Generator.accepted?, call]; rfl, next,
          placed, gives, same⟩⟩

/-! ## Runs -/

/-- The points of a sweep are those of the records that it has accepted, and of the first
values. -/
structure Aligned (s : Sweep) (accepted : List Measurement) : Prop where
  unlimited : s.trace.limit = none
  received : s.received = accepted.length
  length : s.trace.length = accepted.length
  point : ∀ (k : Nat) (m : Measurement), accepted[k]? = some m → ∃ point value,
    s.trace.points[k]? = some point ∧ s.values[k]? = some value ∧
    s.axis.apply value = .ok point.1 ∧ s.reduction.Gives m point.2

variable {records : List Measurement}

theorem Aligned.of_samePoints (aligned : s.Aligned records) (same : SamePoints s t) :
    t.Aligned records where
  unlimited := same.trace ▸ aligned.unlimited
  received := same.received ▸ aligned.received
  length := same.trace ▸ aligned.length
  point := by
    rw [same.trace, same.values, same.axis, same.reduction]
    exact aligned.point

theorem Aligned.addPoint (aligned : s.Aligned records) {point : Point} {value : Quantity}
    (next : s.values[s.received]? = some value) (placed : s.axis.apply value = .ok point.1)
    (gives : s.reduction.Gives m point.2) : (s.addPoint point).Aligned (records ++ [m]) := by
  have pushed := trace_addPoint aligned.unlimited point
  have size : s.trace.points.length = records.length := aligned.length
  refine ⟨?_, ?_, ?_, fun k other found => ?_⟩
  · rw [pushed]
  · rw [Sweep.addPoint, aligned.received, List.length_append, List.length_singleton]
  · rw [pushed, Trace.length, List.length_append, List.length_append, size, List.length_singleton,
      List.length_singleton]
  · rw [pushed]
    rcases getElem?_append_singleton found with old | ⟨rfl, rfl⟩
    · obtain ⟨earlier, its, there, rest⟩ := aligned.point k other old
      refine ⟨earlier, its, ?_, rest⟩
      rw [List.getElem?_append_left (List.getElem?_eq_some_iff.1 there).1, there]
    · refine ⟨point, value, ?_, aligned.received ▸ next, placed, gives⟩
      rw [← size, List.getElem?_concat_length]

/-- **What calls keep.** -/
theorem Aligned.run (aligned : s.Aligned records) (calls : List Call) :
    ∃ t, (Generator.sweep s).run calls = .sweep t ∧ SameCourse s t ∧
      t.Aligned (records ++ accepted (.sweep s) calls) := by
  induction calls generalizing s records with
  | nil => exact ⟨s, rfl, (SamePoints.refl s).toSameCourse, by rwa [accepted, List.append_nil]⟩
  | cons c rest ih =>
      obtain ⟨t, called, way⟩ := call_cases s c
      have onward : s.SameCourse t ∧
          t.Aligned (records ++ ((Generator.sweep s).accepted? c).toList) := by
        rcases way with ⟨none', same⟩ | ⟨m, point, value, takes, next, placed, gives, same⟩
        · rw [none', Option.toList_none, List.append_nil]
          exact ⟨same.toSameCourse, aligned.of_samePoints same⟩
        · rw [takes, Option.toList_some]
          exact ⟨(sameCourse_addPoint s point).trans same.toSameCourse,
            (aligned.addPoint next placed gives).of_samePoints same⟩
      obtain ⟨u, ran, same, whole⟩ := ih onward.2
      refine ⟨u, ?_, onward.1.trans same, ?_⟩
      · rw [Generator.run, List.foldl_cons, called]
        exact ran
      · rwa [accepted, called, ← List.append_assoc]

theorem Charted.aligned {shuffle : Shuffle} {scan : Scan} {p : Program} {reduction : Reduction}
    {gates : Option GateSequences} (charted : Charted shuffle scan p reduction gates s) :
    s.Aligned [] where
  unlimited := by rw [charted.trace]
  received := charted.received
  length := by rw [charted.trace]; rfl
  point _ _ found := by cases found

/-- **Points, records and steps belong together.**  Whatever the shuffle, and whatever calls
come to a sweep: as many values are counted as there are points, and no more than there are
values.  Point `k` is that of the `k`-th record that was accepted, in the place of the `k`-th
value, and step `k` of the stream sets the parameter to that value, before the words of the gates
that go with it.  A record fails only if the next value has no place on the axis, and then
nothing changes. -/
theorem aligned_of_calls {shuffle : Shuffle} {scan : Scan} {p : Program} {reduction : Reduction}
    {gates : Option GateSequences} (built : Built shuffle scan p reduction gates s)
    (calls : List Call) :
    ∃ t, (Generator.sweep s).run calls = .sweep t ∧ scan.values shuffle = .ok t.values ∧
      t.received = t.trace.length ∧ t.received ≤ t.values.length ∧
      t.trace.length = (accepted (.sweep s) calls).length ∧
      (∀ (k : Nat) (m : Measurement), (accepted (.sweep s) calls)[k]? = some m →
        ∃ (point : Point) (value : Quantity), t.trace.points[k]? = some point ∧
          t.values[k]? = some value ∧ (plotAxis scan).apply value = .ok point.1 ∧
          reduction.Gives m point.2) ∧
      (∃ steps, t.stream.source = .steps steps ∧ steps.length = t.values.length ∧
        ∀ (k : Nat) (value : Quantity), t.values[k]? = some value → ∃ update,
          p.Sets scan.parameter value update ∧ steps[k]? = some (update ++ payload gates k)) ∧
      ∀ m e, t.onRecord m = .error e →
        (∃ value, t.values[t.received]? = some value ∧
          (plotAxis scan).apply value = .error e) ∧
        (Generator.sweep t).call (.record m) = (.sweep t, {}) := by
  have charted := built.charted
  obtain ⟨t, ran, same, aligned⟩ := charted.aligned.run calls
  rw [List.nil_append] at aligned
  have points := aligned.point
  rw [same.axis, charted.axis, same.reduction, charted.reduction] at points
  refine ⟨t, ran, same.values ▸ charted.values, aligned.received.trans aligned.length.symm, ?_,
    aligned.length, points, ?_, fun m e failed => ?_⟩
  · rw [aligned.received]
    -- the last record that was accepted has its value
    refine Nat.le_of_not_lt fun beyond => ?_
    obtain ⟨_, _, _, there, _⟩ := points t.values.length _ (List.getElem?_eq_getElem beyond)
    exact absurd there (by simp)
  · rw [same.source, same.values]
    exact charted.step
  · constructor
    · obtain ⟨e', value, failed', next, misplaced⟩ | ⟨_, done, _⟩ | ⟨_, _, _, done, _⟩ :=
        onRecord_cases t m
      · obtain rfl := Except.error.inj (failed'.symm.trans failed)
        rw [same.axis, charted.axis] at misplaced
        exact ⟨value, next, misplaced⟩
      · cases done.symm.trans failed
      · cases done.symm.trans failed
    · rw [Generator.call, Generator.onRecord, failed]
      rfl

/-- A gain that goes from 1 to 3. -/
def gainScan : Scan :=
  { parameter := "gain", start := .plain 1, stop := .plain 3, spacing := .count 3 }

def gainProgram : Program :=
  { vars := Table.ofList [("gain", { name := "gain", type := .parameter, value := .plain 0 })] }

/-- Two steps with a record each, the second one without data, and then the end of the run. -/
def gainCalls : List Call :=
  [.nextBurst, .record { counts := [[4, 6]] }, .record {}, .record { isFinal := true },
    .record { counts := [[5]] }]

theorem aligned_of_calls_gain : ∃ s t,
    Built .still gainScan gainProgram (.meanCount 0) (some ⟨[[7, 8]]⟩) s ∧
    (Generator.sweep s).run gainCalls = .sweep t ∧ t.received = 2 ∧ t.trace.length = 2 ∧
    (∃ point value, t.trace.points[1]? = some point ∧ t.values[1]? = some value ∧
      (plotAxis gainScan).apply value = .ok point.1 ∧ point.2.isNaN = true) ∧
    ∃ steps, t.stream.source = .steps steps ∧ steps.length = t.values.length := by
  have ran : (do
      let before ← (make gainScan gainProgram (.meanCount 0) { awaited := true } .still).1
      let s ← before.withGates ⟨[[7, 8]]⟩
      return accepted (.sweep s) gainCalls : Except ScanError (List Measurement)).toOption =
        some [{ counts := [[4, 6]] }, {}] := by decide +kernel
  obtain ⟨before, made, ran⟩ := bind_eq_ok.1 (ok_of_toOption ran)
  obtain ⟨s, sent, ran⟩ := bind_eq_ok.1 ran
  have built : Built .still gainScan gainProgram (.meanCount 0) (some ⟨[[7, 8]]⟩) s :=
    .withGates (.make made) sent
  have taken : accepted (.sweep s) gainCalls = [{ counts := [[4, 6]] }, {}] := Except.ok.inj ran
  obtain ⟨t, ended, _, received, _, length, points, ⟨steps, source, steps', _⟩, _⟩ :=
    aligned_of_calls built gainCalls
  rw [taken] at length points
  exact ⟨s, t, built, ended, received.trans length, length, points 1 {} rfl, steps, source, steps'⟩

end Sweep

end PulseSequencer
