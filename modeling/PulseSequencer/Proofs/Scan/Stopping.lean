import PulseSequencer.Proofs.Except
import PulseSequencer.Scan.Generator

/-
# PulseSequencer.Proofs.Scan.Stopping -- a measurement ends once

Whoever waits for the end of a measurement is told once, by the call that ends it
(`StopHandler.Attended`), and from then on there are no bursts and no points
(`Generator.ended_call`).  Final records and requests end a measurement, with one
exception: a sweep passes over a final record that has data for a value without a place
on the axis (`Generator.Overlooks`).  `Generator.stopped_once` tells both of every run.
-/

namespace PulseSequencer

set_option autoImplicit false

/-! ## The handler -/

namespace StopHandler

/-- Somebody waits for the end, or was told of it. -/
def Attended (h : StopHandler) : Prop :=
  h = { awaited := true } ∨ ∃ reason, h = { reason := some reason, told := [reason] }

variable {h : StopHandler}

theorem isStopped_stop (reason : StopReason) : (h.stop reason).1.isStopped = true := by
  unfold stop
  split
  · assumption
  · rfl

theorem stop_of_isStopped (stopped : h.isStopped = true) (reason : StopReason) :
    (h.stop reason).1 = h := by
  rw [stop, if_pos stopped]

theorem Attended.stop (attended : h.Attended) (reason : StopReason) :
    (h.stop reason).1.Attended := by
  rcases attended with rfl | ⟨earlier, rfl⟩
  · exact .inr ⟨reason, rfl⟩
  · exact .inr ⟨earlier, rfl⟩

theorem Attended.told_le (attended : h.Attended) : h.told.length ≤ 1 := by
  rcases attended with rfl | ⟨reason, rfl⟩
  · exact Nat.zero_le 1
  · exact Nat.le_refl 1

theorem Attended.told_of_isStopped (attended : h.Attended) (stopped : h.isStopped = true) :
    ∃ reason, h.reason = some reason ∧ h.told = [reason] := by
  rcases attended with rfl | ⟨reason, rfl⟩
  · exact absurd stopped Bool.false_ne_true
  · exact ⟨reason, rfl, rfl⟩

end StopHandler

/-! ## Records -/

namespace Sweep

variable {s : Sweep} {m : Measurement}

/-- The record has data for a value that has no place on the axis. -/
def Misplaced (s : Sweep) (m : Measurement) : Prop :=
  (s.reduction.apply m).isSome = true ∧
    ∃ value e, s.values[s.received]? = some value ∧ s.axis.apply value = .error e

theorem point?_of_misplaced (misplaced : s.Misplaced m) : ∃ e, s.point? m = .error e := by
  obtain ⟨data, value, e, next, fails⟩ := misplaced
  obtain ⟨y, reduced⟩ := Option.isSome_iff_exists.1 data
  have reduced' : s.reduce? m = some y := by rw [reduce?, reduced]
  exact ⟨e, by rw [point?, next, reduced']; simp only [fails]; rfl⟩

theorem point?_of_final (final : m.isFinal = true) (placed : ¬s.Misplaced m) :
    ∃ point, s.point? m = .ok point := by
  unfold point?
  split
  · rename_i value y next reduced
    have data : (s.reduction.apply m).isSome = true := by
      rw [reduce?] at reduced
      split at reduced
      · rename_i found
        rw [found]
        rfl
      · rw [if_pos final] at reduced
        cases reduced
    cases plotted : s.axis.apply value with
    | ok x => exact ⟨_, rfl⟩
    | error e => exact absurd ⟨data, value, e, next, plotted⟩ placed
  · exact ⟨none, rfl⟩

theorem onRecord_of_finished (finished : s.isFinished = true) : s.onRecord m = .ok (s, none) := by
  rw [onRecord, if_pos finished]

theorem onRecord_of_misplaced (unfinished : s.isFinished = false) (misplaced : s.Misplaced m) :
    ∃ e, s.onRecord m = .error e := by
  obtain ⟨e, fails⟩ := point?_of_misplaced misplaced
  exact ⟨e, by rw [onRecord, unfinished, fails]; rfl⟩

/-- A trace without a limit keeps all of its points. -/
theorem trace_addPoint (unlimited : s.trace.limit = none) (p : Point) :
    (s.addPoint p).trace = { points := s.trace.points ++ [p] } := by
  simp only [addPoint, Trace.push, unlimited]

/-- The sweep with the point of a record, if the record has one. -/
def plot (s : Sweep) : Option Point → Sweep
  | some p => s.addPoint p
  | none => s

theorem handler_plot (s : Sweep) (point : Option Point) : (s.plot point).handler = s.handler := by
  cases point <;> rfl

/-- Why a sweep ends with a record, if it does. -/
def ending? (s : Sweep) (m : Measurement) : Option StopReason :=
  if m.isFinal then some m.stopReason
  else if s.received = s.values.length then some .completed
  else none

/-- A record is plotted, and then it may be the last. -/
theorem onRecord_of_point (unfinished : s.isFinished = false) {point : Option Point}
    (plotted : s.point? m = .ok point) :
    s.onRecord m =
      .ok (((s.plot point).ending? m).elim (s.plot point) (s.plot point).stop, point) := by
  have closes : ∀ t : Sweep, (if m.isFinal then pure (t.stop m.stopReason, point)
      else if t.received = t.values.length then pure (t.stop .completed, point)
      else pure (t, point) : Except ScanError (Sweep × Option Point)) =
        .ok ((t.ending? m).elim t t.stop, point) := by
    intro t
    rw [ending?]
    split
    · rfl
    · split <;> rfl
  rw [onRecord, unfinished, plotted]
  cases point <;> exact closes _

/-- A final record that is not misplaced ends a sweep. -/
theorem isFinished_of_final (unfinished : s.isFinished = false) (final : m.isFinal = true)
    (placed : ¬s.Misplaced m) : ∃ t point, s.onRecord m = .ok (t, point) ∧ t.isFinished = true := by
  obtain ⟨point, plotted⟩ := point?_of_final final placed
  refine ⟨_, point, onRecord_of_point unfinished plotted, ?_⟩
  rw [ending?, if_pos final]
  exact StopHandler.isStopped_stop _

/-- A record ends a sweep, or leaves its handler alone. -/
theorem handler_onRecord {t : Sweep} {point : Option Point} (done : s.onRecord m = .ok (t, point)) :
    t.handler = s.handler ∨ ∃ reason, t.handler = (s.handler.stop reason).1 := by
  cases finished : s.isFinished with
  | true =>
      rw [onRecord_of_finished finished] at done
      obtain ⟨rfl, _⟩ := Prod.mk.inj (Except.ok.inj done)
      exact .inl rfl
  | false =>
      cases plotted : s.point? m with
      | error e =>
          rw [onRecord, finished, plotted] at done
          cases done
      | ok found =>
          rw [onRecord_of_point finished plotted] at done
          obtain ⟨rfl, _⟩ := Prod.mk.inj (Except.ok.inj done)
          cases (s.plot found).ending? m with
          | none => exact .inl (handler_plot s found)
          | some reason => exact .inr ⟨reason, by rw [← handler_plot s found]; rfl⟩

end Sweep

namespace Monitor

variable {m : Monitor} {r : Measurement}

theorem onRecord_of_finished (finished : m.isFinished = true) : m.onRecord r = (m, none) := by
  rw [onRecord, if_pos finished]

theorem isFinished_of_final (final : r.isFinal = true) : (m.onRecord r).1.isFinished = true := by
  by_cases finished : m.isFinished = true
  · rw [onRecord_of_finished finished]
    exact finished
  · rw [onRecord, if_neg finished]
    simp only [final, if_true]
    exact StopHandler.isStopped_stop _

theorem handler_onRecord : (m.onRecord r).1.handler = m.handler ∨
    ∃ reason, (m.onRecord r).1.handler = (m.handler.stop reason).1 := by
  rw [onRecord]
  split
  · exact .inl rfl
  · cases m.reduction.apply r <;>
    · dsimp only
      split
      · exact .inr ⟨_, rfl⟩
      · exact .inl rfl

end Monitor

/-! ## Calls -/

namespace Generator

/-- What a measurement may be asked for. -/
inductive Call where
  | record (m : Measurement)
  | requestStop
  | nextBurst
  | withWindow (words : Nat)
deriving Repr, DecidableEq

/-- What a call gives. -/
structure Answer where
  burst : Bytes := []
  point : Option Point := none

/-- Answers a call.  A record that cannot be accounted for changes nothing. -/
def call (g : Generator) : Call → Generator × Answer
  | .record m =>
      match g.onRecord m with
      | .ok (next, point) => (next, { point })
      | .error _ => (g, {})
  | .requestStop => (g.requestStop, {})
  | .nextBurst => (g.nextBurst.1, { burst := g.nextBurst.2 })
  | .withWindow words => (g.withWindow words, {})

def run (g : Generator) (calls : List Call) : Generator := calls.foldl (fun g c => (g.call c).1) g

def answers : Generator → List Call → List Answer
  | _, [] => []
  | g, c :: rest => (g.call c).2 :: answers (g.call c).1 rest

/-- A call that is to end the measurement. -/
def Call.Ends : Call → Prop
  | .record m => m.isFinal = true
  | .requestStop => True
  | _ => False

/-- A sweep passes over a record that has data for a value without a place on the axis. -/
def Overlooks (g : Generator) : Call → Prop
  | .record m =>
      match g with
      | .sweep s => s.isFinished = false ∧ s.Misplaced m
      | .monitor _ => False
  | _ => False

variable {g : Generator} {c : Call}

theorem call_of_overlooks (overlooks : g.Overlooks c) : g.call c = (g, {}) := by
  cases c with
  | record m =>
      cases g with
      | sweep s =>
          obtain ⟨e, fails⟩ := Sweep.onRecord_of_misplaced overlooks.1 overlooks.2
          rw [call, onRecord, fails]
          rfl
      | monitor m => exact absurd overlooks not_false
  | _ => exact absurd overlooks not_false

/-- **Final records and requests end a measurement**, unless they are overlooked. -/
theorem isFinished_call (ends : c.Ends) (seen : ¬g.Overlooks c) :
    (g.call c).1.isFinished = true := by
  cases c with
  | record m =>
      cases g with
      | monitor r => exact Monitor.isFinished_of_final ends
      | sweep s =>
          cases finished : s.isFinished with
          | true =>
              rw [call, onRecord, Sweep.onRecord_of_finished finished]
              exact finished
          | false =>
              obtain ⟨t, point, done, ended⟩ := Sweep.isFinished_of_final finished ends
                fun misplaced => seen ⟨finished, misplaced⟩
              rw [call, onRecord, done]
              exact ended
  | requestStop => cases g <;> exact StopHandler.isStopped_stop _
  | nextBurst => exact absurd ends not_false
  | withWindow words => exact absurd ends not_false

/-- A call ends the measurement, or leaves its handler alone. -/
theorem handler_call (c : Call) : (g.call c).1.handler = g.handler ∨
    ∃ reason, (g.call c).1.handler = (g.handler.stop reason).1 := by
  cases c with
  | record m =>
      cases g with
      | monitor r => exact Monitor.handler_onRecord
      | sweep s =>
          cases done : s.onRecord m with
          | error e =>
              rw [call, onRecord, done]
              exact .inl rfl
          | ok result =>
              rw [call, onRecord, done]
              exact Sweep.handler_onRecord done
  | requestStop => cases g <;> exact .inr ⟨_, rfl⟩
  | nextBurst =>
      cases g with
      | sweep s =>
          refine .inl ?_
          show s.nextBurst.1.handler = s.handler
          unfold Sweep.nextBurst
          split <;> rfl
      | monitor m =>
          refine .inl ?_
          show m.nextBurst.1.handler = m.handler
          unfold Monitor.nextBurst
          split <;> rfl
  | withWindow words => cases g <;> exact .inl rfl

/-- **Nothing comes behind the end.** -/
theorem ended_call (finished : g.isFinished = true) (c : Call) :
    (g.call c).1.handler = g.handler ∧ (g.call c).1.trace = g.trace ∧ (g.call c).2 = {} := by
  cases g with
  | sweep s =>
      have finished' : s.isFinished = true := finished
      cases c with
      | record m =>
          rw [call, onRecord, Sweep.onRecord_of_finished finished']
          exact ⟨rfl, rfl, rfl⟩
      | requestStop => exact ⟨StopHandler.stop_of_isStopped finished _, rfl, rfl⟩
      | nextBurst =>
          have none' : s.nextBurst = (s, []) := by rw [Sweep.nextBurst, if_pos finished']
          rw [call, nextBurst, none']
          exact ⟨rfl, rfl, rfl⟩
      | withWindow words => exact ⟨rfl, rfl, rfl⟩
  | monitor m =>
      have finished' : m.isFinished = true := finished
      cases c with
      | record r =>
          rw [call, onRecord, Monitor.onRecord_of_finished finished']
          exact ⟨rfl, rfl, rfl⟩
      | requestStop => exact ⟨StopHandler.stop_of_isStopped finished _, rfl, rfl⟩
      | nextBurst =>
          have none' : m.nextBurst = (m, []) := by rw [Monitor.nextBurst, if_pos finished']
          rw [call, nextBurst, none']
          exact ⟨rfl, rfl, rfl⟩
      | withWindow words => exact ⟨rfl, rfl, rfl⟩

/-! ## Runs -/

theorem attended_run (attended : g.handler.Attended) (calls : List Call) :
    (g.run calls).handler.Attended := by
  induction calls generalizing g with
  | nil => exact attended
  | cons c rest ih =>
      refine ih (g := (g.call c).1) ?_
      rcases handler_call (g := g) c with same | ⟨reason, stopped⟩
      · rwa [same]
      · rw [stopped]
        exact attended.stop reason

theorem ended_run (finished : g.isFinished = true) (calls : List Call) :
    (g.run calls).handler = g.handler ∧ (g.run calls).trace = g.trace ∧
      ∀ answer ∈ g.answers calls, answer.burst = [] ∧ answer.point = none := by
  induction calls generalizing g with
  | nil => exact ⟨rfl, rfl, fun _ there => absurd there List.not_mem_nil⟩
  | cons c rest ih =>
      obtain ⟨handler, trace, answer⟩ := ended_call finished c
      have finished' : (g.call c).1.isFinished = true := by rwa [isFinished, handler]
      obtain ⟨handlers, traces, answers'⟩ := ih finished'
      refine ⟨handlers.trans handler, traces.trans trace, List.forall_mem_cons.2 ⟨?_, answers'⟩⟩
      rw [answer]
      exact ⟨rfl, rfl⟩

/-- **A measurement ends once.**  Whoever waits for the end is told at most once, whatever
is asked for.  A final record or a request ends the measurement: he has been told then,
and there are no bursts and no points any more, unless the record is overlooked, which
changes nothing. -/
theorem stopped_once (attended : g.handler.Attended) :
    (∀ calls, (g.run calls).handler.told.length ≤ 1) ∧
    ∀ (before : List Call) (c : Call) (after : List Call), c.Ends →
      ((g.run before).Overlooks c → (g.run before).isFinished = false ∧
        (g.run before).call c = (g.run before, {})) ∧
      (¬(g.run before).Overlooks c →
        let ended := g.run (before ++ [c])
        ended.isFinished = true ∧ ended.handler.told.length = 1 ∧
        (g.run (before ++ c :: after)).handler = ended.handler ∧
        (g.run (before ++ c :: after)).trace = ended.trace ∧
        ∀ answer ∈ ended.answers after, answer.burst = [] ∧ answer.point = none) := by
  refine ⟨fun calls => (attended_run attended calls).told_le, fun before c after ends =>
    ⟨fun overlooks => ⟨?_, call_of_overlooks overlooks⟩, fun seen => ?_⟩⟩
  · revert overlooks
    cases g.run before <;> cases c <;> intro overlooks <;>
      first | exact overlooks.1 | exact absurd overlooks not_false
  · have onward : g.run (before ++ [c]) = ((g.run before).call c).1 := by
      rw [run, List.foldl_append]
      rfl
    have whole : g.run (before ++ c :: after) = (g.run (before ++ [c])).run after := by
      rw [run, List.append_cons, List.foldl_append]
      rfl
    have finished : (g.run (before ++ [c])).isFinished = true :=
      onward ▸ isFinished_call ends seen
    obtain ⟨reason, _, told⟩ := (attended_run attended (before ++ [c])).told_of_isStopped finished
    obtain ⟨handler, trace, silent⟩ := ended_run finished after
    exact ⟨finished, by rw [told]; rfl, by rw [whole, handler], by rw [whole, trace], silent⟩

/-- A sweep of one value, plotted by a formula that nobody can compute. -/
def offAxis : Generator :=
  .sweep {
    parameter := "freq"
    values := [.plain 100.0]
    updates := zeroUpdate
    stream := .ofWords zeroUpdate wordsPerUpdate
    axis := { formula := some "y" }
    reduction := .meanCount 0
    handler := { awaited := true } }

/-- The counts of the last step, and the end of the run. -/
def lastCounts : Call :=
  .record { counts := [[7]], isFinal := true, exitcode := some Variable.endOfRun }

theorem stopped_once_offAxis : offAxis.handler.Attended ∧
    (∀ calls, (offAxis.run calls).handler.told.length ≤ 1) ∧
    Call.Ends .requestStop ∧ ¬(offAxis.run [.nextBurst, lastCounts]).Overlooks .requestStop ∧
    let ended := offAxis.run [.nextBurst, lastCounts, .requestStop]
    ended.isFinished = true ∧ ended.handler.told.length = 1 ∧
    (offAxis.run [.nextBurst, lastCounts, .requestStop, lastCounts, .nextBurst]).handler =
      ended.handler ∧
    (offAxis.run [.nextBurst, lastCounts, .requestStop, lastCounts, .nextBurst]).trace =
      ended.trace ∧
    ∀ answer ∈ ended.answers [lastCounts, .nextBurst], answer.burst = [] ∧ answer.point = none := by
  have attended : offAxis.handler.Attended := .inl rfl
  obtain ⟨once, ends⟩ := stopped_once attended
  exact ⟨attended, once, trivial, not_false,
    (ends [.nextBurst, lastCounts] .requestStop [lastCounts, .nextBurst] trivial).2 not_false⟩

/-- A final record whose value has no place on the axis does not end the sweep. -/
theorem not_stopped_offAxis : offAxis.handler.Attended ∧ lastCounts.Ends ∧
    (offAxis.run [lastCounts]).isFinished = false ∧
    (offAxis.run [lastCounts]).handler.told = [] :=
  ⟨.inl rfl, rfl, by decide +kernel, by decide +kernel⟩

end Generator

end PulseSequencer
