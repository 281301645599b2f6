import PulseSequencer.Proofs.Scan.Stopping
import PulseSequencer.Proofs.Scan.Window
import Mathlib.Data.List.Infix
import Mathlib.Data.List.Induction

/-
# PulseSequencer.Proofs.Scan.Refilling -- how a monitor keeps the sequencer busy

A monitor sends the same update over and over.  A burst fills the window with it
(`UpdateStream.inFlight_nextBurst`), and a record that has data releases one of the steps in
flight; a record without data releases none (`Monitor.Going.call`).  So the words in flight
are two for every step that was sent, less those of the records with data, and a monitor whose
records have none stops sending once its window is full.

Main statement: `Monitor.inFlight_of_calls`.
-/

namespace PulseSequencer

set_option autoImplicit false

/-- Whether a record has something to plot. -/
def Reduction.hasData (r : Reduction) (m : Measurement) : Bool := (r.apply m).isSome

/-! ## Streams that repeat a step -/

namespace UpdateStream

/-- As many steps are sent as the window has room for besides those in flight, and one at least
if there are none. -/
theorem length_fill_replicate {step : List UInt64} (some' : step ≠ []) (window : Nat)
    {outstanding count : Nat} (enough : max 1 (window / step.length) ≤ outstanding + count) :
    (fill window (outstanding * step.length) (List.replicate count step)).length =
      max 1 (window / step.length) - outstanding := by
  have pos : 0 < step.length := List.length_pos_iff.2 some'
  induction count generalizing outstanding with
  | zero =>
      rw [List.replicate_zero, fill, List.length_nil]
      omega
  | succ count ih =>
      have fits : outstanding * step.length + step.length ≤ window ↔
          outstanding < window / step.length := by
        rw [← Nat.succ_mul, ← Nat.le_div_iff_mul_le pos, Nat.succ_le_iff]
      rw [List.replicate_succ, fill, if_congr fits rfl rfl]
      split
      · rw [← Nat.succ_mul, List.length_cons, ih (by omega)]
        omega
      · split
        · rename_i busy
          have := Nat.pos_of_mul_pos_right busy
          rw [List.length_nil]
          omega
        · rename_i idle
          have none' : outstanding = 0 := by
            rcases Nat.eq_zero_or_pos outstanding with none' | some'
            · exact none'
            · exact absurd (Nat.mul_pos some' pos) idle
          rw [List.length_singleton]
          omega

variable {s : UpdateStream} {step : List UInt64}

theorem length_nextSteps (repeats : s.source = .repeating step) (some' : step ≠ []) :
    s.nextSteps.length = max 1 (s.window / step.length) - (s.sent - s.completed) := by
  have flying : s.inFlight = (s.sent - s.completed) * step.length := by rw [inFlight, repeats]
  have upcoming : s.upcoming = List.replicate (s.window / step.length + 1) step := by
    simp [UpdateStream.upcoming, repeats, List.isEmpty_eq_false_iff.2 some']
  have enough : max 1 (s.window / step.length) ≤
      s.sent - s.completed + (s.window / step.length + 1) :=
    Nat.le_trans (Nat.max_le.2 ⟨Nat.le_add_left 1 _, Nat.le_succ _⟩) (Nat.le_add_left _ _)
  rw [nextSteps, flying, upcoming]
  exact length_fill_replicate some' s.window enough

/-- **A burst fills the window.** -/
theorem inFlight_nextBurst (repeats : s.source = .repeating step) (some' : step ≠ [])
    (inOrder : s.InOrder) : s.nextBurst.1.inFlight =
      max s.inFlight (max 1 (s.window / step.length) * step.length) := by
  have le := inOrder.completed_le
  have sent : s.nextBurst.1.sent - s.completed =
      max (s.sent - s.completed) (max 1 (s.window / step.length)) := by
    show s.sent + s.nextSteps.length - s.completed = _
    rw [length_nextSteps repeats some']
    omega
  have flying : s.inFlight = (s.sent - s.completed) * step.length := by rw [inFlight, repeats]
  have flying' : s.nextBurst.1.inFlight = (s.nextBurst.1.sent - s.completed) * step.length := by
    have repeats' : s.nextBurst.1.source = .repeating step := repeats
    rw [inFlight, repeats']
    rfl
  rw [flying', sent, flying]
  exact (Nat.mul_max_mul_right _ _ _).symm

/-- The bytes of a burst are those of the words that it adds. -/
theorem length_nextBurst (inOrder : s.InOrder) :
    s.nextBurst.2.length = 8 * (s.nextBurst.1.inFlight - s.inFlight) := by
  rw [inFlight_eq, inOrder.outstanding_nextBurst, List.flatten_append, List.length_append,
    ← inFlight_eq, Nat.add_sub_cancel_left]
  exact length_bytesOfWords _

theorem sent_stepCompleted (s : UpdateStream) : s.stepCompleted.1.sent = s.sent := by
  rw [stepCompleted]
  split <;> rfl

theorem completed_stepCompleted (outstanding : s.completed < s.sent) :
    s.stepCompleted.1.completed = s.completed + 1 := by
  rw [stepCompleted, if_pos outstanding]

end UpdateStream

/-! ## Calls -/

namespace Generator

/-- The records among calls. -/
def records (calls : List Call) : List Measurement :=
  calls.filterMap fun
    | .record r => some r
    | _ => none

/-- What a call does to the stream of a monitor. -/
def Call.operations (reduction : Reduction) : Call → List UpdateStream.Operation
  | .record r => if reduction.hasData r then [.complete] else []
  | .requestStop => []
  | .nextBurst => [.burst]
  | .withWindow words => [.setWindow words]

/-- A burst, or a record without data. -/
def Call.Idle (reduction : Reduction) : Call → Prop
  | .record r => r.isFinal = false ∧ reduction.hasData r = false
  | .nextBurst => True
  | _ => False

/-- There are never more records than steps sent. -/
def Paced (g : Generator) (calls : List Call) : Prop :=
  ∀ before ∈ calls.inits, (records before).length ≤ (g.run before).stream.sent

instance (g : Generator) (calls : List Call) : Decidable (g.Paced calls) :=
  inferInstanceAs (Decidable (∀ before ∈ calls.inits, _))

theorem Paced.left {g : Generator} {calls more : List Call} (paced : g.Paced (calls ++ more)) :
    g.Paced calls := by
  intro before there
  have within := (List.mem_inits _ _).1 there
  exact paced before ((List.mem_inits _ _).2 (within.trans (List.prefix_append _ _)))

theorem Paced.records_le {g : Generator} {calls : List Call} (paced : g.Paced calls) :
    (records calls).length ≤ (g.run calls).stream.sent :=
  paced calls ((List.mem_inits _ _).2 List.prefix_rfl)

theorem records_append (calls more : List Call) :
    records (calls ++ more) = records calls ++ records more :=
  List.filterMap_append

theorem Call.sent_of_record (reduction : Reduction) (r : Measurement) (s : UpdateStream) :
    (s.run ((Call.record r).operations reduction)).1.sent = s.sent := by
  rw [operations]
  split
  · exact s.sent_stepCompleted
  · rfl

/-- With a step in flight a record is done with one if it has data; other calls are done with
none. -/
theorem Call.completed_operations (reduction : Reduction) (c : Call) {s : UpdateStream}
    (outstanding : ∀ r, c = .record r → s.completed < s.sent) :
    (s.run (c.operations reduction)).1.completed =
      s.completed + ((records [c]).filter reduction.hasData).length := by
  cases c with
  | record r =>
      have single : records [.record r] = [r] := rfl
      rw [single, operations]
      cases data : reduction.hasData r with
      | false => simp [data, UpdateStream.run]
      | true =>
          rw [if_pos rfl, List.filter_cons_of_pos data]
          exact UpdateStream.completed_stepCompleted (outstanding r rfl)
  | requestStop => rfl
  | nextBurst => rfl
  | withWindow words => rfl

theorem run_append (g : Generator) (calls more : List Call) :
    g.run (calls ++ more) = (g.run calls).run more :=
  List.foldl_append

end Generator

namespace Monitor

open Generator (Call records)

/-- A monitor that has not ended: it repeats the update that changes nothing. -/
structure Going (reduction : Reduction) (m : Monitor) : Prop where
  running : m.isFinished = false
  reduction : m.reduction = reduction
  source : m.stream.source = .repeating zeroUpdate
  inOrder : m.stream.InOrder

variable {m : Monitor} {reduction : Reduction}

theorem Going.inFlight_eq (going : m.Going reduction) :
    m.stream.inFlight = 2 * (m.stream.sent - m.stream.completed) := by
  rw [UpdateStream.inFlight, going.source]
  exact Nat.mul_comm _ _

theorem nextBurst_of_running (running : m.isFinished = false) :
    m.nextBurst = ({ m with stream := m.stream.nextBurst.1 }, m.stream.nextBurst.2) := by
  rw [nextBurst, if_neg (by simp [running])]

/-- A burst of a monitor fills its window. -/
theorem Going.nextBurst (going : m.Going reduction) :
    m.nextBurst.1.stream.inFlight =
        max m.stream.inFlight (2 * max 1 (m.stream.window / 2)) ∧
      m.nextBurst.2.length = 8 * (2 * max 1 (m.stream.window / 2) - m.stream.inFlight) := by
  have filled : m.stream.nextBurst.1.inFlight =
      max m.stream.inFlight (2 * max 1 (m.stream.window / 2)) := by
    rw [UpdateStream.inFlight_nextBurst going.source (List.cons_ne_nil _ _) going.inOrder]
    exact congrArg _ (Nat.mul_comm _ _)
  rw [nextBurst_of_running going.running]
  refine ⟨filled, ?_⟩
  show m.stream.nextBurst.2.length = _
  rw [UpdateStream.length_nextBurst going.inOrder, filled]
  omega

/-- A record releases a step if it has data. -/
theorem onRecord_of_running (running : m.isFinished = false) {r : Measurement}
    (more : r.isFinal = false) :
    (m.onRecord r).1.handler = m.handler ∧ (m.onRecord r).1.reduction = m.reduction ∧
      (m.onRecord r).1.stream =
        if m.reduction.hasData r then m.stream.stepCompleted.1 else m.stream := by
  rw [onRecord, if_neg (by simp [running]), Reduction.hasData]
  cases m.reduction.apply r <;>
  · simp only [more]
    exact ⟨rfl, rfl, rfl⟩

/-- **What a call does to a monitor** that goes on: its stream performs the operations of the
call. -/
theorem Going.call (going : m.Going reduction) {c : Call} (keeps : ¬c.Ends) :
    ∃ t : Monitor, ((Generator.monitor m).call c).1 = .monitor t ∧ t.Going reduction ∧
      t.stream = (m.stream.run (c.operations reduction)).1 := by
  obtain ⟨inOrder, source, _⟩ := going.inOrder.run (c.operations reduction)
  suffices ∃ t : Monitor, ((Generator.monitor m).call c).1 = .monitor t ∧
      t.handler = m.handler ∧ t.reduction = m.reduction ∧
      t.stream = (m.stream.run (c.operations reduction)).1 by
    obtain ⟨t, called, handler, same, stream⟩ := this
    refine ⟨t, called, ⟨?_, same.trans going.reduction, ?_, stream ▸ inOrder⟩, stream⟩
    · rw [isFinished, handler]
      exact going.running
    · rw [stream, source, going.source]
  cases c with
  | record r =>
      have more : r.isFinal = false := Bool.eq_false_iff.2 keeps
      obtain ⟨handler, same, stream⟩ := onRecord_of_running going.running more
      refine ⟨_, rfl, handler, same, ?_⟩
      rw [stream, going.reduction, Call.operations]
      split <;> rfl
  | requestStop => exact absurd trivial keeps
  | nextBurst =>
      refine ⟨_, rfl, ?_⟩
      rw [nextBurst_of_running going.running]
      exact ⟨rfl, rfl, rfl⟩
  | withWindow words => exact ⟨_, rfl, rfl, rfl, rfl⟩

/-! ## Runs -/

theorem Going.run (going : m.Going reduction) {calls : List Call} (keep : ∀ c ∈ calls, ¬c.Ends) :
    ∃ t : Monitor, (Generator.monitor m).run calls = .monitor t ∧ t.Going reduction := by
  induction calls generalizing m with
  | nil => exact ⟨m, rfl, going⟩
  | cons c rest ih =>
      obtain ⟨keeps, others⟩ := List.forall_mem_cons.1 keep
      obtain ⟨t, called, going', _⟩ := going.call keeps
      obtain ⟨u, ran, going''⟩ := ih going' others
      refine ⟨u, ?_, going''⟩
      rw [Generator.run, List.foldl_cons, called]
      exact ran

/-- **The steps that are done are those of the records with data.** -/
theorem Going.completed (going : m.Going reduction) (fresh : m.stream.completed = 0)
    {calls : List Call} (keep : ∀ c ∈ calls, ¬c.Ends)
    (paced : (Generator.monitor m).Paced calls) :
    ((Generator.monitor m).run calls).stream.completed =
      ((records calls).filter reduction.hasData).length := by
  -- the last call is the one that counts, so the induction adds calls at the end
  induction calls using List.reverseRecOn with
  | nil => exact fresh
  | append_singleton calls c ih =>
      have keep' : ∀ c ∈ calls, ¬c.Ends := fun c there => keep c (List.mem_append_left _ there)
      obtain ⟨t, ran, going'⟩ := going.run keep'
      obtain ⟨u, called, _, stream⟩ := going'.call (keep c (by simp))
      have done := ih keep' paced.left
      have enough := paced.records_le
      have onward : (Generator.monitor m).run (calls ++ [c]) = .monitor u := by
        rw [Generator.run_append, ran]
        exact called
      rw [onward, Generator.records_append, List.filter_append, List.length_append, ← done, ran]
      show u.stream.completed = t.stream.completed + _
      rw [stream]
      refine c.completed_operations reduction fun r is => ?_
      subst is
      rw [onward, Generator.records_append, List.length_append] at enough
      rw [ran] at done
      have few := List.length_filter_le reduction.hasData (records calls)
      have sent : u.stream.sent = t.stream.sent := by
        rw [stream, Call.sent_of_record]
      calc t.stream.completed ≤ (records calls).length := done.le.trans few
        _ < (records calls).length + (records [Call.record r]).length := Nat.lt_succ_self _
        _ ≤ u.stream.sent := enough
        _ = t.stream.sent := sent

/-! ## Monitors that starve -/

/-- A full window takes nothing, and a record without data does not make room in it. -/
theorem Going.call_of_full (going : m.Going reduction)
    (full : 2 * max 1 (m.stream.window / 2) ≤ m.stream.inFlight) {c : Call}
    (idle : c.Idle reduction) : (Generator.monitor m).call c = (.monitor m, {}) := by
  cases c with
  | record r =>
      obtain ⟨more, dataless⟩ := idle
      have none' : m.reduction.apply r = none := by
        rw [going.reduction]
        exact Option.isNone_iff_eq_none.1 (by simpa [Reduction.hasData] using dataless)
      have kept : m.onRecord r = (m, none) := by
        rw [onRecord, if_neg (by simp [going.running]), none']
        simp [more]
      rw [Generator.call, Generator.onRecord, kept]
  | nextBurst =>
      have count := UpdateStream.length_nextSteps going.source (List.cons_ne_nil _ _)
      have none' : m.stream.nextSteps = [] := by
        refine List.eq_nil_of_length_eq_zero (count.trans (Nat.sub_eq_zero_of_le ?_))
        rw [going.inFlight_eq] at full
        exact Nat.le_of_mul_le_mul_left full (by decide)
      rw [Generator.call, Generator.nextBurst, nextBurst_of_running going.running,
        UpdateStream.nextBurst, none']
      rfl
  | requestStop => exact absurd idle not_false
  | withWindow words => exact absurd idle not_false

theorem Going.run_of_full (going : m.Going reduction)
    (full : 2 * max 1 (m.stream.window / 2) ≤ m.stream.inFlight) {calls : List Call}
    (idle : ∀ c ∈ calls, c.Idle reduction) :
    (Generator.monitor m).run calls = .monitor m ∧
      ∀ answer ∈ (Generator.monitor m).answers calls, answer.burst = [] := by
  induction calls with
  | nil => exact ⟨rfl, fun _ there => absurd there List.not_mem_nil⟩
  | cons c rest ih =>
      obtain ⟨first, others⟩ := List.forall_mem_cons.1 idle
      obtain ⟨ran, silent⟩ := ih others
      have kept := going.call_of_full full first
      constructor
      · rw [Generator.run, List.foldl_cons, kept]
        exact ran
      · rw [Generator.answers, kept]
        exact List.forall_mem_cons.2 ⟨rfl, silent⟩

/-- **A monitor sends as many steps as records with data make room for.**  Whatever calls come
that do not end it: the words in flight are two for every step that is sent and not done.  A
record is done with a step if it has data, and with none otherwise.  A burst fills the window; a
full window stays as it is, and nothing is sent, until a record with data comes.  With never
more records than steps sent, the steps that are done are those of the records with data; so
they are those of all the records exactly if every record has data. -/
theorem inFlight_of_calls {limit : Nat} {reduction : Reduction} {handler : StopHandler}
    (running : handler.isStopped = false) {calls : List Call} (keep : ∀ c ∈ calls, ¬c.Ends) :
    let start := Generator.monitor (.make limit reduction handler)
    let g := start.run calls
    let filled := 2 * max 1 (g.stream.window / 2)
    g.isFinished = false ∧
    g.stream.inFlight = 2 * (g.stream.sent - g.stream.completed) ∧
    (∀ r : Measurement, r.isFinal = false → (g.call (.record r)).1.stream =
      if reduction.hasData r then g.stream.stepCompleted.1 else g.stream) ∧
    (g.call .nextBurst).1.stream.inFlight = max g.stream.inFlight filled ∧
    (g.call .nextBurst).2.burst.length = 8 * (filled - g.stream.inFlight) ∧
    (filled ≤ g.stream.inFlight → ∀ later : List Call, (∀ c ∈ later, c.Idle reduction) →
      g.run later = g ∧ ∀ answer ∈ g.answers later, answer.burst = []) ∧
    (start.Paced calls →
      g.stream.inFlight =
        2 * (g.stream.sent - ((records calls).filter reduction.hasData).length) ∧
      (g.stream.inFlight = 2 * (g.stream.sent - (records calls).length) ↔
        ∀ r ∈ records calls, reduction.hasData r = true)) := by
  intro start g filled
  have fresh : (make limit reduction handler).Going reduction :=
    ⟨running, rfl, rfl, Nat.le_refl 0, rfl⟩
  have done : start.Paced calls → g.stream.completed = _ := fresh.completed rfl keep
  have sent : start.Paced calls → (records calls).length ≤ g.stream.sent :=
    Generator.Paced.records_le
  obtain ⟨t, ran, going⟩ := fresh.run keep
  have is : g = .monitor t := ran
  clear_value g
  subst is
  refine ⟨going.running, going.inFlight_eq, fun r more => ?_, going.nextBurst.1,
    going.nextBurst.2, fun full later idle => going.run_of_full full idle, fun paced => ?_⟩
  · rw [← going.reduction]
    exact (onRecord_of_running going.running more).2.2
  · have done := done paced
    have sent := sent paced
    have few := List.length_filter_le reduction.hasData (records calls)
    have flying : (Generator.monitor t).stream.inFlight = _ := going.inFlight_eq
    change t.stream.completed = _ at done
    rw [← List.length_filter_eq_length_iff, flying, ← done]
    change _ ≤ t.stream.sent at sent
    show _ ∧ (_ = 2 * (t.stream.sent - _) ↔ _)
    refine ⟨rfl, ?_⟩
    omega

/-- A window of two steps, with a record that has data and one that has none. -/
def unevenCalls : List Call :=
  [.withWindow 4, .nextBurst, .record { counts := [[5]] }, .nextBurst, .record {}, .nextBurst]

theorem inFlight_of_calls_uneven :
    let start := Generator.monitor (.make 3 (.meanCount 0) { awaited := true })
    let g := start.run unevenCalls
    ({ awaited := true } : StopHandler).isStopped = false ∧ (∀ c ∈ unevenCalls, ¬c.Ends) ∧
    start.Paced unevenCalls ∧ g.stream.sent = 3 ∧ (records unevenCalls).length = 2 ∧
    g.stream.inFlight = 2 * (3 - 1) ∧
    ¬(g.stream.inFlight = 2 * (g.stream.sent - (records unevenCalls).length)) ∧
    ∀ answer ∈ g.answers [.nextBurst, .record {}, .nextBurst], answer.burst = [] := by
  intro start g
  have running : ({ awaited := true } : StopHandler).isStopped = false := rfl
  have keep : ∀ c ∈ unevenCalls, ¬c.Ends := by simp [unevenCalls, Call.Ends]
  have paced : start.Paced unevenCalls := by decide +kernel
  have sent : g.stream.sent = 3 := by decide +kernel
  have window : g.stream.window = 4 := by decide +kernel
  obtain ⟨_, _, _, _, _, starves, counted⟩ := inFlight_of_calls running keep
  obtain ⟨flying, all⟩ := counted paced
  have two : g.stream.inFlight = 2 * (3 - 1) := by
    rw [← sent]
    exact flying
  have full : 2 * max 1 (g.stream.window / 2) ≤ g.stream.inFlight := by
    rw [window, two]
    decide
  refine ⟨running, keep, paced, sent, rfl, two, fun one => ?_, (starves full _ ?_).2⟩
  · exact absurd (all.1 one {} (by simp [records, unevenCalls])) (by decide)
  · simp [Call.Idle, Reduction.hasData, Reduction.apply]

/-- A record without data leaves its step in flight, and the burst behind it is empty. -/
theorem not_refilled_dataless :
    let start := Generator.monitor (.make 3 (.meanCount 0) { awaited := true })
    let g := start.run [.nextBurst, .record {}]
    start.Paced [.nextBurst, .record {}] ∧ g.isFinished = false ∧
    g.stream.sent = 1020 ∧ (records [.nextBurst, .record {}]).length = 1 ∧
    g.stream.inFlight = 2 * 1020 ∧ (g.call .nextBurst).2.burst = [] := by
  decide +kernel

end Monitor

end PulseSequencer
