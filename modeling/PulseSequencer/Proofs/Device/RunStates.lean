import PulseSequencer.Proofs.Device.Isolation
import PulseSequencer.Proofs.Except

/-
# PulseSequencer.Proofs.Device.RunStates -- the state of a run, on both sides

The engine keeps a state of its own beside the board, and moves it by commands and by what
it finds in telemetry.  `InStep` ties the two together: between calls a run is neither about
to start nor about to stop, and it is paused on the engine exactly if the board is.  Every
call keeps that (`InStep.call`), whatever telemetry is laid down at whatever time.

`Moves` is the diagram of states: a command of a run succeeds exactly where it has an arrow,
and leaves everything as it is elsewhere (`perform_steering`).

Main statement: `inStep_of_calls`.
-/

namespace PulseSequencer

set_option autoImplicit false

open Telemetry (Record)

/-! ## Triggers and pauses -/

theorem Board.paused_trigger (b : Board) (t : Trigger) :
    (b.trigger t).paused =
      match t with
      | .pause => true
      | .start | .resume => false
      | _ => b.paused := by
  rw [trigger, triggerBit]
  simp only [Trigger.ofBit?_bit]
  cases t <;> simp only [act] <;> split <;> rfl

/-- What may be laid down on a board from outside. -/
inductive Script where
  /-- What every run sends from now on. -/
  | runTelemetry (words : List UInt64)
  /-- Telemetry that waits right away, whole words or not. -/
  | telemetry (bytes : Bytes)
  | overrun
  | capture (bytes : Bytes)
  | hardwareId (id : UInt16)
  | externalStatus (bits : UInt16)
  /-- Where the large memory reads back wrong. -/
  | corruption (address : UInt64)

def Board.lay (b : Board) : Script → Board
  | .runTelemetry words => { b with runTelemetry := bytesOfWords words }
  | .telemetry bytes => { b with telemetry := b.telemetry ++ bytes }
  | .overrun => { b with overrun := true }
  | .capture bytes => { b with capture := b.capture ++ bytes }
  | .hardwareId id => { b with hardwareId := id }
  | .externalStatus bits => { b with externalStatus := bits }
  | .corruption address => { b with corruptAt := some address }

theorem Board.paused_lay (b : Board) (script : Script) : (b.lay script).paused = b.paused := by
  cases script <;> rfl

namespace Engine

/-! ## Calls -/

inductive Call where
  /-- Opens the board again, with a new engine in place of the one before. -/
  | attach (catalog : DeviceCatalog) (settings : EngineSettings) (hostTime : UInt64)
  | command (command : EngineCommand)
  | script (script : Script)

/-- An engine after a call.  Where a board cannot be opened, the engine before stays. -/
def call (e : Engine) : Call → Engine
  | .attach catalog settings hostTime =>
      (attach e.board catalog settings hostTime).toOption.elim e Prod.fst
  | .command command => (e.perform command).1
  | .script script => { e with board := e.board.lay script }

def calls (e : Engine) (history : List Call) : Engine := history.foldl call e

/-- The commands that steer a run, the triggers that they send, and the states between which
they move the run. -/
inductive Moves : EngineCommand → Trigger → RunState → RunState → Prop
  | start : Moves .start .start .idle .running
  | pause : Moves .pause .pause .running .paused
  | resume : Moves .resume .resume .paused .running
  | interruptRunning : Moves .interrupt .interrupt .running .running
  | interruptPaused : Moves .interrupt .interrupt .paused .paused

def steering : List EngineCommand := [.start, .pause, .resume, .interrupt]

/-- Where the moves of a command start. -/
def allowed : EngineCommand → List RunState
  | .start => [.idle]
  | .pause => [.running]
  | .resume => [.paused]
  | .interrupt => [.running, .paused]
  | _ => []

theorem Moves.mem_allowed {command : EngineCommand} {t : Trigger} {s s' : RunState}
    (moves : Moves command t s s') : s ∈ allowed command := by
  cases moves <;> decide

/-- A command that steers a run asks for the state, and moves it. -/
theorem steered (e : Engine) {command : EngineCommand} (steers : command ∈ steering) :
    ∃ action next, e.perform command = e.changed
        ((e.requireState action (allowed command) >>= fun _ => .ok next).mapError .hardware) ∧
      (e.state ∈ allowed command →
        ∃ t, Moves command t e.state next.state ∧ next.board = e.board.trigger t) := by
  simp only [steering, List.mem_cons, List.not_mem_nil, or_false] at steers
  rcases steers with rfl | rfl | rfl | rfl
  · refine ⟨.start, _, rfl, fun there => ⟨.start, ?_, rfl⟩⟩
    rw [List.mem_singleton.1 there]
    exact .start
  · refine ⟨.pause, _, rfl, fun there => ⟨.pause, ?_, rfl⟩⟩
    rw [List.mem_singleton.1 there]
    exact .pause
  · refine ⟨.resume, _, rfl, fun there => ⟨.resume, ?_, rfl⟩⟩
    rw [List.mem_singleton.1 there]
    exact .resume
  · refine ⟨.interrupt, _, rfl, fun there => ⟨.interrupt, ?_, rfl⟩⟩
    show Moves .interrupt .interrupt e.state e.state
    rcases (by simpa [allowed] using there : e.state = .running ∨ e.state = .paused) with
      running | paused
    · rw [running]
      exact .interruptRunning
    · rw [paused]
      exact .interruptPaused

/-- **A command succeeds exactly where it moves the state**, and then sends its trigger;
elsewhere it changes nothing. -/
theorem perform_steering (e : Engine) {command : EngineCommand} (steers : command ∈ steering) :
    (∃ t state, Moves command t e.state state ∧ (e.perform command).2.1 = .ok .done ∧
        (e.perform command).1.state = state ∧
          (e.perform command).1.board = e.board.trigger t) ∨
      (∀ t state, ¬ Moves command t e.state state) ∧
        (∃ action, (e.perform command).2.1 = .error (.hardware (.notAllowed action e.state))) ∧
          (e.perform command).1 = e := by
  obtain ⟨action, next, guarded, moved⟩ := steered e steers
  rw [guarded, requireState]
  by_cases there : e.state ∈ allowed command
  · obtain ⟨t, moves, sent⟩ := moved there
    rw [if_pos (List.contains_iff_mem.2 there)]
    exact .inl ⟨t, next.state, moves, rfl, rfl, sent⟩
  · rw [if_neg fun contained => there (List.contains_iff_mem.1 contained)]
    exact .inr ⟨fun _ _ moves => there moves.mem_allowed, ⟨action, rfl⟩, rfl⟩

/-! ## Engine and board -/

/-- What holds between calls: no run is about to start or to stop, and a run is paused on
the engine if it is on the board. -/
structure InStep (e : Engine) : Prop where
  settled : e.state = .idle ∨ e.state = .running ∨ e.state = .paused
  running : e.state = .running → e.board.paused = false
  paused : e.state = .paused → e.board.paused = true

section InStep

variable {e e' : Engine}

/-- Without a run, nothing is asked of the board. -/
theorem inStep_of_idle (idle : e.state = .idle) : InStep e where
  settled := .inl idle
  running busy := by rw [idle] at busy; cases busy
  paused busy := by rw [idle] at busy; cases busy

theorem InStep.of_same (inStep : InStep e) (state : e'.state = e.state)
    (board : e'.board.paused = e.board.paused) : InStep e' where
  settled := state.symm ▸ inStep.settled
  running busy := board.trans (inStep.running (state.symm.trans busy))
  paused busy := board.trans (inStep.paused (state.symm.trans busy))

theorem InStep.of_beside (inStep : InStep e) (beside : Beside e e') : InStep e' :=
  inStep.of_same beside.state beside.board.paused

theorem inStep_of_attach {board : Board} {catalog : DeviceCatalog} {settings : EngineSettings}
    {hostTime : UInt64} {opened : Engine × List Notice}
    (attached : attach board catalog settings hostTime = .ok opened) : InStep opened.1 := by
  rw [attach] at attached
  obtain ⟨config, _, made⟩ := bind_eq_ok.1 attached
  obtain rfl := Except.ok.inj made
  exact inStep_of_idle rfl

theorem paused_poll (e : Engine) : e.poll.1.board.paused = e.board.paused := by
  rw [poll]
  dsimp only
  split
  · simp only [closeOverrun, trigger, Board.paused_trigger, Board.read]
  · rfl

theorem InStep.poll (inStep : InStep e) : InStep e.poll.1 := by
  cases final : e.poll.2.1.any Record.isFinal with
  | true => exact inStep_of_idle (by rw [state_poll, final, if_pos rfl])
  | false =>
      exact inStep.of_same (by rw [state_poll, final, if_neg Bool.false_ne_true]) (paused_poll e)

/-- The trigger that moves the state moves the board with it. -/
theorem inStep_of_moves {command : EngineCommand} {t : Trigger} {state : RunState}
    (inStep : InStep e) (moves : Moves command t e.state state) (moved : e'.state = state)
    (sent : e'.board = e.board.trigger t) : InStep e' := by
  have paused := Board.paused_trigger e.board t
  rw [← sent] at paused
  generalize before : e.state = s at moves
  cases moves with
  | start | resume =>
      exact ⟨.inr (.inl moved), fun _ => paused,
        fun busy => absurd (moved.symm.trans busy) (by decide)⟩
  | pause =>
      exact ⟨.inr (.inr moved), fun busy => absurd (moved.symm.trans busy) (by decide),
        fun _ => paused⟩
  | interruptRunning | interruptPaused => exact inStep.of_same (moved.trans before.symm) paused

theorem InStep.perform (inStep : InStep e) (command : EngineCommand) :
    InStep (e.perform command).1 := by
  by_cases steers : command ∈ steering
  · rcases perform_steering e steers with ⟨_, _, moves, _, moved, sent⟩ | ⟨_, _, same⟩
    · exact inStep_of_moves inStep moves moved sent
    · rwa [same]
  · cases command with
    | start | pause | resume | interrupt => exact absurd (by simp [steering]) steers
    | stop => exact inStep_of_idle (state_stop e)
    | abandon => exact inStep_of_idle rfl
    | poll => exact inStep.poll
    | uploadBitfile image =>
        rcases uploadBitfile_cases e image with same | ⟨_, _, idle⟩
        · exact same.symm ▸ inStep
        · exact inStep_of_idle idle
    | _ => exact inStep.of_beside (beside_perform e _ (by simp [besideRuns]))

/-- **Every call keeps engine and board in step.** -/
theorem InStep.call (inStep : InStep e) (call : Call) : InStep (e.call call) := by
  cases call with
  | attach catalog settings hostTime =>
      rw [Engine.call]
      cases attached : Engine.attach e.board catalog settings hostTime with
      | error fault => exact inStep
      | ok opened => exact inStep_of_attach attached
  | command command => exact inStep.perform command
  | script script => exact inStep.of_same rfl (Board.paused_lay e.board script)

theorem InStep.calls (inStep : InStep e) (history : List Call) : InStep (e.calls history) := by
  induction history generalizing e with
  | nil => exact inStep
  | cons call rest ih => exact ih (inStep.call call)

end InStep

/-- **The state of a run stays in step with the board**, through all calls and with any
telemetry.  A command that steers the run moves both, or neither; a stop always answers, and
no run is left behind it or behind a poll that tells a final record. -/
theorem inStep_of_calls (board : Board) (catalog : DeviceCatalog) (settings : EngineSettings)
    (hostTime : UInt64) (opened : Engine × List Notice)
    (attached : attach board catalog settings hostTime = .ok opened) (history : List Call) :
    let e := opened.1.calls history
    InStep e ∧
      (∀ command ∈ steering,
        (∃ t state, Moves command t e.state state ∧ (e.perform command).2.1 = .ok .done ∧
            (e.perform command).1.state = state ∧
              (e.perform command).1.board = e.board.trigger t) ∨
          (∀ t state, ¬ Moves command t e.state state) ∧
            (∃ action, (e.perform command).2.1 = .error (.hardware (.notAllowed action e.state))) ∧
              (e.perform command).1 = e) ∧
      (∃ records, (e.perform .stop).2.1 = .ok (.records records)) ∧
      (e.perform .stop).1.state = .idle ∧
      ∃ records, (e.perform .poll).2.1 = .ok (.records records) ∧
        (∀ record ∈ records, record.isFinal → (e.perform .poll).1.state = .idle) := by
  intro e
  have inStep : InStep e := (inStep_of_attach attached).calls history
  refine ⟨inStep, fun command steers => perform_steering e steers, ⟨_, rfl⟩, state_stop e,
    e.poll.2.1, rfl, ?_⟩
  intro record there final
  have told : e.poll.2.1.any Record.isFinal = true := List.any_eq_true.2 ⟨record, there, final⟩
  show e.poll.1.state = .idle
  rw [state_poll, told, if_pos rfl]

/-- A board that is opened again while it runs, and a run that is paused when its end comes
in. -/
def endedWhilePaused : List Call :=
  [.script .overrun, .command .start, .attach .standard {} 7, .command .start, .command .pause,
    .script (.telemetry (bytesOfWord Variable.endOfRun))]

theorem inStep_of_calls_endedWhilePaused :
    ∃ opened, attach { hardwareId := 1 } .standard {} 0 = .ok opened ∧
      let e := opened.1.calls endedWhilePaused
      e.state = .paused ∧ e.board.triggers = [0, 0, 4] ∧ InStep e ∧
        (e.perform .start).1 = e ∧
        (e.perform .poll).1.state = .idle ∧ (e.perform .poll).1.board.paused = true := by
  have ran : (attach { hardwareId := 1 } .standard {} 0).toOption.map (fun opened =>
      let e := opened.1.calls endedWhilePaused
      (e.state, e.board.triggers, e.poll.2.1.any Record.isFinal,
        (e.perform .poll).1.board.paused)) = some (.paused, [0, 0, 4], true, true) := by
    decide +kernel
  obtain ⟨opened, attached, same⟩ := Option.map_eq_some_iff.1 ran
  replace attached := ok_of_toOption attached
  simp only [Prod.mk.injEq] at same
  obtain ⟨paused, triggers, final, stays⟩ := same
  obtain ⟨inStep, steering, _, _, records, told, ended⟩ :=
    inStep_of_calls { hardwareId := 1 } .standard {} 0 opened attached endedWhilePaused
  refine ⟨opened, attached, paused, triggers, inStep, ?_, ?_, stays⟩
  · rcases steering .start (by simp [Engine.steering]) with ⟨_, _, moves, _⟩ | ⟨_, _, same⟩
    · rw [paused] at moves
      cases moves
    · exact same
  · obtain rfl : _ = records := EngineReply.records.inj (Except.ok.inj told)
    obtain ⟨record, there, isFinal⟩ := List.any_eq_true.1 final
    exact ended record there isFinal

end Engine

end PulseSequencer
