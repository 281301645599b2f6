import PulseSequencer.Device.Command
import PulseSequencer.Proofs.Bytes
import PulseSequencer.Proofs.Telemetry.Cuts

/-
# PulseSequencer.Proofs.Device.Isolation -- what one run leaves to the next

Nothing on the board drops telemetry when a run starts, so that a run is isolated from
those before it if no telemetry waits at its start.  A stop polls until a final record
comes, and a poll reads at most 4095 words: `telemetry_stop_eq_nil_iff` tells exactly when
that leaves nothing, and no step on an idle engine lays down telemetry
(`Quiet.step`).  Then later runs are isolated (`isolated_of_stop`).

A stop that finds the end of the run in the last word that its poll can read leaves the
marker that the board adds, and that marker closes a record of the next run
(`not_isolated_of_fullPoll`).
-/

namespace PulseSequencer

set_option autoImplicit false

open Telemetry (Record)

/-! ## Telemetry on the board -/

namespace Board

/-- What a trigger adds to the telemetry that waits. -/
def puts (b : Board) : Trigger → Bytes
  | .start => b.runTelemetry
  | .stop => if b.running then bytesOfWord Variable.endOfRun else []
  | .interrupt => if b.running then bytesOfWord softStop else []
  | _ => []

theorem telemetry_trigger (b : Board) (t : Trigger) :
    (b.trigger t).telemetry = b.telemetry ++ b.puts t := by
  rw [trigger, triggerBit]
  simp only [Trigger.ofBit?_bit]
  cases t <;> simp only [act, puts, List.append_nil] <;> split <;> simp

theorem runTelemetry_trigger (b : Board) (t : Trigger) :
    (b.trigger t).runTelemetry = b.runTelemetry := by
  rw [trigger, triggerBit]
  simp only [Trigger.ofBit?_bit]
  cases t <;> simp only [act] <;> split <;> rfl

/-- Two boards with the same telemetry. -/
structure SameTelemetry (b b' : Board) : Prop where
  waiting : b'.telemetry = b.telemetry
  run : b'.runTelemetry = b.runTelemetry

namespace SameTelemetry

variable {a b c : Board}

theorem refl (b : Board) : SameTelemetry b b := ⟨rfl, rfl⟩

theorem trans (first : SameTelemetry a b) (second : SameTelemetry b c) : SameTelemetry a c :=
  ⟨second.waiting.trans first.waiting, second.run.trans first.run⟩

end SameTelemetry

/-- Two boards that also agree on whether they are paused. -/
structure SameControl (b b' : Board) : Prop extends SameTelemetry b b' where
  paused : b'.paused = b.paused

namespace SameControl

variable {a b c : Board}

theorem refl (b : Board) : SameControl b b := ⟨.refl b, rfl⟩

theorem trans (first : SameControl a b) (second : SameControl b c) : SameControl a c :=
  ⟨first.toSameTelemetry.trans second.toSameTelemetry, second.paused.trans first.paused⟩

end SameControl

theorem sameControl_writeRegister (b : Board) (w : RegisterWrite) :
    SameControl b (b.writeRegister w) := by
  rw [writeRegister]
  dsimp only
  split <;> try exact ⟨⟨rfl, rfl⟩, rfl⟩
  split <;> exact ⟨⟨rfl, rfl⟩, rfl⟩

theorem sameControl_write (b : Board) (pipe : InPipe) (bytes : Bytes) :
    SameControl b (b.write pipe bytes) := by
  cases pipe with
  | registers =>
      rw [write]
      induction parseFrames bytes generalizing b with
      | nil => exact .refl b
      | cons w rest ih => exact (sameControl_writeRegister b w).trans (ih _)
  | _ => exact ⟨⟨rfl, rfl⟩, rfl⟩

theorem sameControl_readChunk (b : Board) (address : UInt64) (length : Nat) :
    SameControl b (b.readChunk address length).1 :=
  sameControl_write b .registers _

theorem sameControl_writeChunk (b : Board) (address : UInt64) (bytes : Bytes) :
    SameControl b (b.writeChunk address bytes).1 := by
  have written := ((sameControl_write b .registers
    (frames [(Register.memoryWriteAddress.address, address)])).trans
      (sameControl_write _ .memory bytes)).trans
        (sameControl_readChunk _ address bytes.length)
  rw [writeChunk]
  dsimp only
  split <;> exact written

theorem sameControl_writeChunks (b : Board) (address : UInt64) (pieces : List Bytes) :
    SameControl b (b.writeChunks address pieces).1 := by
  induction pieces generalizing b address with
  | nil => exact .refl b
  | cons piece rest ih =>
      have first := sameControl_writeChunk b address piece
      rw [writeChunks]
      split
      · rename_i next written
        rw [written] at first
        exact first.trans (ih _ _)
      · exact first

theorem sameControl_writeMemory (b : Board) (address : UInt64) (bytes : Bytes) (quantum : Nat) :
    SameControl b (b.writeMemory address bytes quantum).1 := by
  rw [writeMemory]
  split
  · exact .refl b
  · exact sameControl_writeChunks b address _

theorem sameControl_readChunks (b : Board) (address : UInt64) (length quantum : Nat) :
    SameControl b (b.readChunks address length quantum).1 := by
  fun_induction readChunks b address length quantum with
  | case1 => exact .refl _
  | case2 b address length _ size b' bytes readFirst b'' rest readRest ih =>
      have first := sameControl_readChunk b address size
      rw [readFirst] at first
      rw [readRest] at ih
      exact first.trans ih

end Board

namespace Engine

/-! ## Histories -/

inductive Step where
  /-- Lays down what every run sends. -/
  | script (words : List UInt64)
  | command (command : EngineCommand)

/-- An engine after a step, and the records that the step tells. -/
def step (e : Engine) : Step → Engine × List Record
  | .script words => ({ e with board := { e.board with runTelemetry := bytesOfWords words } }, [])
  | .command command =>
      ((e.perform command).1, (e.perform command).2.1.toOption.elim [] EngineReply.recordsOrNone)

/-- An engine after steps in order, and all records that they tell. -/
def steps (e : Engine) : List Step → Engine × List Record
  | [] => (e, [])
  | step :: rest =>
      (((e.step step).1.steps rest).1, (e.step step).2 ++ ((e.step step).1.steps rest).2)

/-- An engine whose board has no telemetry that waits. -/
def emptied (e : Engine) : Engine := { e with board := { e.board with telemetry := [] } }

/-- **The run that would start now is isolated from those before it**: whatever is done
after its start, the records are those after a start on a board without telemetry. -/
def Isolated (e : Engine) : Prop :=
  ∀ next, e.start = .ok next → ∃ fresh, e.emptied.start = .ok fresh ∧
    ∀ later, (next.steps later).2 = (fresh.steps later).2

/-! ## Polls -/

/-- How many bytes a poll reads at most. -/
def pollLimit : Nat := 32760

theorem waiting_eq (b : Board) :
    (b.wire .telemetryStatus &&& UInt16.ofNat Board.waitingMask).toNat =
      min (b.telemetry.length / 2) Board.waitingMask := by
  have small : min (b.telemetry.length / 2) Board.waitingMask < 2 ^ 14 := by
    rw [Board.waitingMask]
    omega
  have plain : (UInt16.ofNat (min (b.telemetry.length / 2) Board.waitingMask) &&&
      UInt16.ofNat Board.waitingMask).toNat = min (b.telemetry.length / 2) Board.waitingMask := by
    rw [UInt16.toNat_and, UInt16.toNat_ofNat', UInt16.toNat_ofNat',
      Nat.mod_eq_of_lt (by omega : min _ _ < 2 ^ 16),
      show Board.waitingMask % 2 ^ 16 = 2 ^ 14 - 1 from rfl, Nat.and_two_pow_sub_one_eq_mod,
      Nat.mod_eq_of_lt small]
  simp only [Board.wire]
  split
  · have apart : Board.overrunBit.toNat &&& (UInt16.ofNat Board.waitingMask).toNat = 0 := by
      decide
    rw [UInt16.toNat_and, UInt16.toNat_or, Nat.and_or_distrib_right, apart, Nat.or_zero,
      ← UInt16.toNat_and, plain]
  · exact plain

/-- **What a poll leaves.** -/
theorem telemetry_poll_of_any (e : Engine) :
    e.poll.1.board.telemetry =
      e.board.telemetry.drop (min (e.board.telemetry.length / 2) Board.waitingMask * 2 / 8 * 8) ∧
    e.poll.1.board.runTelemetry = e.board.runTelemetry := by
  rw [poll]
  simp only [waiting_eq, Board.read]
  split
  · simp only [closeOverrun, trigger, Board.telemetry_trigger, Board.runTelemetry_trigger,
      Board.puts, List.append_nil, and_self]
  · exact ⟨rfl, rfl⟩

/-- A poll sees the final record that it tells. -/
theorem state_poll (e : Engine) :
    e.poll.1.state = if e.poll.2.1.any Record.isFinal then .idle else e.state := by
  rw [poll]
  dsimp only
  split <;> rfl

/-- Telemetry that is whole words, now and in runs. -/
structure Whole (e : Engine) : Prop where
  waiting : 8 ∣ e.board.telemetry.length
  run : 8 ∣ e.board.runTelemetry.length

/-- Of whole words, a poll takes all that it can take. -/
theorem pollSize_eq {length : Nat} (whole : 8 ∣ length) :
    min (length / 2) Board.waitingMask * 2 / 8 * 8 = min length pollLimit := by
  rw [Board.waitingMask, pollLimit]
  omega

theorem telemetry_poll {e : Engine} (whole : Whole e) :
    e.poll.1.board.telemetry = e.board.telemetry.drop pollLimit := by
  rw [(telemetry_poll_of_any e).1, pollSize_eq whole.waiting]
  rcases Nat.le_total e.board.telemetry.length pollLimit with all | more
  · rw [Nat.min_eq_left all, List.drop_length, List.drop_eq_nil_of_le all]
  · rw [Nat.min_eq_right more]

/-- The records of what a poll reads are among those that it tells. -/
theorem any_isFinal_poll {e : Engine} (whole : Whole e) :
    e.poll.2.1.any Record.isFinal =
      ((e.assembler.feed (e.board.telemetry.take pollLimit)).2.1.any Record.isFinal ||
        (e.board.wire .telemetryStatus &&& Board.overrunBit != 0 &&
          (e.assembler.feed (e.board.telemetry.take pollLimit)).1.current.isFinal)) := by
  have read : e.board.telemetry.take (min e.board.telemetry.length pollLimit) =
      e.board.telemetry.take pollLimit := by
    rw [List.take_eq_take_iff]
    omega
  rw [poll]
  simp only [waiting_eq, Board.read, pollSize_eq whole.waiting, read, List.any_map]
  split
  · rename_i lost
    simp only [bne_iff_ne.2 lost, closeOverrun, Telemetry.Assembler.closeOverrun]
    simp [Function.comp_def]
  · rename_i kept
    simp only [not_not.1 kept]
    simp [Function.comp_def]

theorem Whole.poll {e : Engine} (whole : Whole e) : Whole e.poll.1 := by
  refine ⟨?_, (telemetry_poll_of_any e).2 ▸ whole.run⟩
  rw [telemetry_poll whole, List.length_drop, pollLimit]
  exact Nat.dvd_sub whole.waiting (by decide)

/-! ## Stops -/

/-- A board that was told to stop. -/
def stopping (e : Engine) : Engine :=
  ({ e with state := .stopping }.trigger .stop).trigger .clearInputFifo

theorem telemetry_stopping (e : Engine) :
    e.stopping.board.telemetry = e.board.telemetry ++ e.board.puts .stop ∧
      e.stopping.board.runTelemetry = e.board.runTelemetry := by
  simp only [stopping, trigger, Board.telemetry_trigger, Board.runTelemetry_trigger, Board.puts,
    List.append_nil, and_self]

theorem Whole.stopping {e : Engine} (whole : Whole e) : Whole e.stopping := by
  refine ⟨?_, (telemetry_stopping e).2 ▸ whole.run⟩
  rw [(telemetry_stopping e).1, List.length_append]
  refine Nat.dvd_add whole.waiting ?_
  rw [Board.puts]
  split <;> simp

/-- Polls, whatever they tell. -/
def polls (e : Engine) : Nat → Engine × List Record
  | 0 => (e, [])
  | n + 1 => ((e.poll.1.polls n).1, e.poll.2.1 ++ (e.poll.1.polls n).2)

/-- The polls of a stop read all telemetry: it fits, and no record that a poll completes
is final as long as telemetry waits. -/
structure ReadsAll (e : Engine) (count : Nat) : Prop where
  fits : e.board.telemetry.length ≤ pollLimit * count
  opens : ∀ n, pollLimit * n < e.board.telemetry.length →
    ∀ record ∈ (e.polls n).2, record.isFinal = false

theorem readsAll_succ_of_final {e : Engine} (final : e.poll.2.1.any Record.isFinal = true)
    (count : Nat) : ReadsAll e (count + 1) ↔ e.board.telemetry.length ≤ pollLimit := by
  constructor
  · intro reads
    by_contra more
    obtain ⟨record, there, isFinal⟩ := List.any_eq_true.1 final
    have opens := reads.opens 1 (by omega) record (List.mem_append_left _ there)
    rw [isFinal] at opens
    cases opens
  · intro one
    refine ⟨by rw [Nat.mul_succ]; omega, fun n less => ?_⟩
    obtain rfl : n = 0 := by
      by_contra positive
      have := Nat.mul_le_mul_left pollLimit (Nat.one_le_iff_ne_zero.2 positive)
      omega
    exact fun record there => absurd there List.not_mem_nil

theorem readsAll_succ_of_open {e : Engine} (whole : Whole e)
    (none' : e.poll.2.1.any Record.isFinal = false) (count : Nat) :
    ReadsAll e (count + 1) ↔ ReadsAll e.poll.1 count := by
  have length : e.poll.1.board.telemetry.length = e.board.telemetry.length - pollLimit := by
    rw [telemetry_poll whole, List.length_drop]
  have limit : 0 < pollLimit := by decide
  have first : ∀ record ∈ e.poll.2.1, record.isFinal = false := fun record there =>
    Bool.eq_false_iff.2 (List.any_eq_false.1 none' record there)
  constructor
  · intro reads
    have fits := reads.fits
    rw [Nat.mul_succ] at fits
    refine ⟨by omega, fun n less record there => ?_⟩
    exact reads.opens (n + 1) (by rw [Nat.mul_succ]; omega) record (List.mem_append_right _ there)
  · intro reads
    have fits := reads.fits
    refine ⟨by rw [Nat.mul_succ]; omega, fun n less record there => ?_⟩
    cases n with
    | zero => exact absurd there List.not_mem_nil
    | succ n =>
        rw [Nat.mul_succ] at less
        rcases List.mem_append.1 there with now | later
        · exact first record now
        · exact reads.opens n (by omega) record later

/-- **When polling to a final record leaves nothing.** -/
theorem telemetry_drain_eq_nil_iff {e : Engine} (whole : Whole e) (count : Nat) :
    (e.drain count).1.board.telemetry = [] ↔ ReadsAll e count := by
  induction count generalizing e with
  | zero =>
      rw [drain, ← List.length_eq_zero_iff]
      show e.board.telemetry.length = 0 ↔ _
      refine ⟨fun none' => ⟨by rw [none']; exact Nat.zero_le _, fun n less => ?_⟩, fun reads =>
        Nat.le_zero.1 reads.fits⟩
      rw [none'] at less
      exact absurd less (Nat.not_lt_zero _)
  | succ count ih =>
      rw [drain]
      dsimp only
      cases final : e.poll.2.1.any Record.isFinal with
      | true =>
          rw [if_pos rfl, readsAll_succ_of_final final, telemetry_poll whole]
          exact List.drop_eq_nil_iff
      | false =>
          rw [if_neg (by decide), readsAll_succ_of_open whole final]
          exact ih whole.poll

/-- What a stop leaves is what its polls leave. -/
theorem board_stop {e : Engine} (busy : e.state ≠ .idle) :
    e.stop.1.board = (e.stopping.drain e.settings.stopPolls).1.board := by
  rw [stop, if_neg busy]
  dsimp only
  split <;> rfl

theorem state_stop (e : Engine) : e.stop.1.state = .idle := by
  rw [stop]
  split
  · assumption
  · dsimp only
    split
    · assumption
    · rfl

/-- A stop leaves no telemetry: the run ended before and all was read, or the polls of the
stop read all. -/
def Drains (e : Engine) : Prop :=
  if e.state = .idle then e.board.telemetry = [] else ReadsAll e.stopping e.settings.stopPolls

/-- **When a stop leaves no telemetry.** -/
theorem telemetry_stop_eq_nil_iff {e : Engine} (whole : Whole e) :
    e.stop.1.board.telemetry = [] ↔ e.Drains := by
  rw [Drains]
  split
  · rename_i idle
    rw [stop, if_pos idle]
  · rename_i busy
    rw [board_stop busy]
    exact telemetry_drain_eq_nil_iff whole.stopping _

/-- Telemetry that one poll reads is read by a stop. -/
theorem drains_of_onePoll {e : Engine} (busy : e.state ≠ .idle) (polling : e.settings.stopPolls ≠ 0)
    (one : e.stopping.board.telemetry.length ≤ pollLimit) : e.Drains := by
  have limit : pollLimit ≤ pollLimit * e.settings.stopPolls :=
    Nat.le_mul_of_pos_right _ (Nat.pos_of_ne_zero polling)
  rw [Drains, if_neg busy]
  refine ⟨Nat.le_trans one limit, fun n less => ?_⟩
  obtain rfl : n = 0 := by
    by_contra positive
    have := Nat.le_mul_of_pos_right pollLimit (Nat.pos_of_ne_zero positive)
    omega
  exact fun record there => absurd there List.not_mem_nil

/-! ## Commands -/

/-- What is done beside of runs leaves the telemetry as it is. -/
structure SameRun (e e' : Engine) : Prop where
  board : Board.SameTelemetry e.board e'.board
  state : e'.state = e.state

/-- What is done beside of runs does not pause or resume either. -/
structure Beside (e e' : Engine) : Prop where
  board : Board.SameControl e.board e'.board
  state : e'.state = e.state

theorem Beside.refl (e : Engine) : Beside e e := ⟨.refl _, rfl⟩

theorem Beside.sameRun {e e' : Engine} (beside : Beside e e') : SameRun e e' :=
  ⟨beside.board.toSameTelemetry, beside.state⟩

theorem beside_writeRegisters (e : Engine) (writes : List RegisterWrite) :
    Beside e (e.writeRegisters writes) :=
  ⟨Board.sameControl_write e.board .registers _, rfl⟩

theorem fst_changed (e : Engine) {ε : Type} (done : Except ε Engine) (fault : ε → DeviceError) :
    (e.changed (done.mapError fault)).1 = done.toOption.getD e := by
  cases done <;> rfl

theorem beside_uploadProgram (e : Engine) (code data : Bytes) :
    Beside e ((e.uploadProgram code data).toOption.getD e) := by
  rw [uploadProgram]
  dsimp only
  split
  · exact .refl e
  · split
    · exact .refl e
    · exact ⟨((beside_writeRegisters e _).board.trans (Board.sameControl_write _ .code _)).trans
        (Board.sameControl_write _ .data _), rfl⟩

theorem beside_writeDataWords (e : Engine) (words : List Change) :
    Beside e ((e.writeDataWords words).toOption.getD e) := by
  rw [writeDataWords]
  split
  · exact .refl e
  · cases List.mapM (m := Except HardwareFault) _ words with
    | error fault => exact .refl e
    | ok writes => exact beside_writeRegisters e writes

/-- Commands that have nothing to do with runs. -/
def besideRuns : EngineCommand → Bool
  | .start | .stop | .pause | .resume | .interrupt | .abandon | .poll | .uploadBitfile _ => false
  | _ => true

theorem beside_perform (e : Engine) (command : EngineCommand) (beside : besideRuns command) :
    Beside e (e.perform command).1 := by
  cases command with
  | uploadProgram images =>
      rw [perform, fst_changed]
      exact beside_uploadProgram e images.code images.data
  | writeDataWords words =>
      rw [perform, fst_changed]
      exact beside_writeDataWords e words
  | writeRegisters writes => exact beside_writeRegisters e writes
  | setParameter name value =>
      rw [perform, setParameter]
      split
      · exact .refl e
      · rename_i p _
        cases (encode value p.encoding).mapError DeviceError.encoding with
        | error fault => exact .refl e
        | ok word => exact beside_writeRegisters e _
  | writeFifo bytes => exact ⟨⟨⟨rfl, rfl⟩, rfl⟩, rfl⟩
  | writeMemory address bytes => exact ⟨Board.sameControl_writeMemory _ _ _ _, rfl⟩
  | readMemory address length =>
      rw [perform, readMemory, Board.readMemory]
      cases Board.checkRange address length with
      | error fault => exact .refl e
      | ok => exact ⟨Board.sameControl_readChunks _ _ _ _, rfl⟩
  | readCapture =>
      rw [perform, readCapture]
      dsimp only
      split
      · exact .refl e
      · exact ⟨⟨⟨rfl, rfl⟩, rfl⟩, rfl⟩
  | externalStatus => exact .refl e
  | _ => cases beside

/-- A bitfile that is loaded drops all telemetry and ends the run. -/
theorem uploadBitfile_cases (e : Engine) (image : Bytes) :
    (e.uploadBitfile image).1 = e ∨ (e.uploadBitfile image).1.board.telemetry = [] ∧
      (e.uploadBitfile image).1.board.runTelemetry = e.board.runTelemetry ∧
        (e.uploadBitfile image).1.state = .idle := by
  rw [uploadBitfile]
  split
  · exact .inl rfl
  · dsimp only
    split
    · exact .inl rfl
    · rename_i board configured
      rw [Board.configure] at configured
      split at configured
      · cases configured
      · obtain rfl := Except.ok.inj configured
        split
        · exact .inr ⟨rfl, rfl, rfl⟩
        · split <;> exact .inr ⟨rfl, rfl, rfl⟩

/-- Where a start is allowed, and what it does. -/
theorem start_eq_ok {e next : Engine} (started : e.start = .ok next) :
    e.state = .idle ∧
      next = { e.trigger .start with state := .running, assembler := e.assembler.reset } := by
  rw [start, requireState] at started
  split at started
  · rename_i allowed
    exact ⟨by simpa using allowed, (Except.ok.inj started).symm⟩
  · cases started

theorem start_of_idle {e : Engine} (idle : e.state = .idle) :
    e.start = .ok { e.trigger .start with state := .running, assembler := e.assembler.reset } := by
  rw [start, requireState, idle]
  rfl

section Whole

variable {e e' : Engine}

theorem Whole.of_sameRun (whole : Whole e) (same : SameRun e e') : Whole e' :=
  ⟨same.board.waiting ▸ whole.waiting, same.board.run ▸ whole.run⟩

theorem Whole.trigger (whole : Whole e) (t : Trigger) : Whole (e.trigger t) := by
  have puts : 8 ∣ (e.board.puts t).length := by
    cases t <;> simp only [Board.puts] <;> first | exact whole.run | (split <;> simp) | simp
  refine ⟨?_, ?_⟩
  · rw [Engine.trigger, Board.telemetry_trigger, List.length_append]
    exact Nat.dvd_add whole.waiting puts
  · rw [Engine.trigger, Board.runTelemetry_trigger]
    exact whole.run

theorem Whole.drain (whole : Whole e) (count : Nat) : Whole (e.drain count).1 := by
  induction count generalizing e with
  | zero => exact whole
  | succ count ih =>
      rw [Engine.drain]
      dsimp only
      split
      · exact whole.poll
      · exact ih whole.poll

theorem Whole.stop (whole : Whole e) : Whole e.stop.1 := by
  by_cases idle : e.state = .idle
  · rw [Engine.stop, if_pos idle]
    exact whole
  · have drained := whole.stopping.drain e.settings.stopPolls
    exact ⟨board_stop idle ▸ drained.waiting, board_stop idle ▸ drained.run⟩

theorem Whole.perform (whole : Whole e) (command : EngineCommand) :
    Whole (e.perform command).1 := by
  cases command with
  | start =>
      simp only [Engine.perform, fst_changed]
      cases started : e.start with
      | error fault => exact whole
      | ok next =>
          obtain ⟨_, rfl⟩ := start_eq_ok started
          exact ⟨(whole.trigger .start).waiting, (whole.trigger .start).run⟩
  | stop => exact whole.stop
  | pause =>
      simp only [Engine.perform, fst_changed, pause]
      cases e.requireState .pause [.running] with
      | error fault => exact whole
      | ok => exact ⟨(whole.trigger .pause).waiting, (whole.trigger .pause).run⟩
  | resume =>
      simp only [Engine.perform, fst_changed, resume]
      cases e.requireState .resume [.paused] with
      | error fault => exact whole
      | ok => exact ⟨(whole.trigger .resume).waiting, (whole.trigger .resume).run⟩
  | interrupt =>
      simp only [Engine.perform, fst_changed, interrupt]
      cases e.requireState .interrupt [.running, .paused] with
      | error fault => exact whole
      | ok => exact whole.trigger .interrupt
  | abandon => exact ⟨whole.waiting, whole.run⟩
  | poll => exact whole.poll
  | uploadBitfile image =>
      rcases uploadBitfile_cases e image with same | ⟨none', run, _⟩
      · exact same.symm ▸ whole
      · exact ⟨none'.symm ▸ by simp, run.symm ▸ whole.run⟩
  | _ => exact whole.of_sameRun (beside_perform e _ (by simp [besideRuns])).sameRun

/-- **Telemetry is whole words through all steps.** -/
theorem Whole.step (whole : Whole e) (step : Step) : Whole (e.step step).1 := by
  cases step with
  | script words => exact ⟨whole.waiting, Dvd.intro _ (length_bytesOfWords words).symm⟩
  | command command => exact whole.perform command

theorem Whole.steps (whole : Whole e) (history : List Step) : Whole (e.steps history).1 := by
  induction history generalizing e with
  | nil => exact whole
  | cons step rest ih => exact ih (whole.step step)

end Whole

/-! ## Between runs -/

/-- An engine without a run and without telemetry. -/
structure Quiet (e : Engine) : Prop where
  idle : e.state = .idle
  waiting : e.board.telemetry = []

section Quiet

variable {e e' : Engine}

theorem Quiet.of_sameRun (quiet : Quiet e) (same : SameRun e e') : Quiet e' :=
  ⟨same.state.trans quiet.idle, same.board.waiting.trans quiet.waiting⟩

theorem Quiet.perform (quiet : Quiet e) {command : EngineCommand} (noStart : command ≠ .start) :
    Quiet (e.perform command).1 := by
  have idle := quiet.idle
  cases command with
  | start => exact absurd rfl noStart
  | stop =>
      simp only [Engine.perform, stop, if_pos idle]
      exact quiet
  | pause =>
      simp only [Engine.perform, fst_changed, pause, requireState, idle]
      exact quiet
  | resume =>
      simp only [Engine.perform, fst_changed, resume, requireState, idle]
      exact quiet
  | interrupt =>
      simp only [Engine.perform, fst_changed, interrupt, requireState, idle]
      exact quiet
  | abandon => exact ⟨rfl, quiet.waiting⟩
  | poll =>
      refine ⟨?_, ?_⟩
      · rw [Engine.perform, state_poll, idle, ite_self]
      · rw [Engine.perform, (telemetry_poll_of_any e).1, quiet.waiting]
        rfl
  | uploadBitfile image =>
      rcases uploadBitfile_cases e image with same | ⟨none', _, idle'⟩
      · exact same.symm ▸ quiet
      · exact ⟨idle', none'⟩
  | _ => exact quiet.of_sameRun (beside_perform e _ (by simp [besideRuns])).sameRun

/-- **Nothing but a start lays down telemetry on a board without a run.** -/
theorem Quiet.step (quiet : Quiet e) {step : Step} (noStart : step ≠ .command .start) :
    Quiet (e.step step).1 := by
  cases step with
  | script words => exact ⟨quiet.idle, quiet.waiting⟩
  | command command => exact quiet.perform fun same => noStart (congrArg Step.command same)

theorem Quiet.steps (quiet : Quiet e) {between : List Step}
    (noStart : .command .start ∉ between) : Quiet (e.steps between).1 := by
  induction between generalizing e with
  | nil => exact quiet
  | cons step rest ih =>
      exact ih (quiet.step fun same => noStart (same ▸ List.mem_cons_self ..))
        fun there => noStart (List.mem_cons_of_mem _ there)

theorem Quiet.isolated (quiet : Quiet e) : Isolated e := by
  have same : e.emptied = e := by
    rw [emptied, ← quiet.waiting]
  intro next started
  exact ⟨next, by rw [same, started], fun _ => rfl⟩

end Quiet

/-- **Runs after a stop are isolated from those before it**, if the polls of the stop read
all telemetry. -/
theorem isolated_of_stop (e : Engine) (whole : Whole e) (history between : List Step)
    (drains : (e.steps history).1.Drains) (noStart : .command .start ∉ between) :
    let last := ((e.steps history).1.stop.1.steps between).1
    last.board.telemetry = [] ∧ Isolated last := by
  have stopped := (telemetry_stop_eq_nil_iff (whole.steps history)).2 drains
  have quiet : Quiet (e.steps history).1.stop.1 := ⟨state_stop _, stopped⟩
  exact ⟨(quiet.steps noStart).waiting, (quiet.steps noStart).isolated⟩

/-- An engine whose board was never used. -/
def unused : Engine where
  board := {}
  settings := {}
  catalog := {}
  config := { id := 0, name := "unused", limits := {} }
  capture := { tolerance := 16 }

theorem whole_unused : Whole unused := ⟨by decide, by decide⟩

theorem isolated_of_stop_shortRun :
    let history := [.script [0x0100000000000007, Variable.endOfRun], .command .start]
    let last := ((unused.steps history).1.stop.1.steps [.command .poll, .script []]).1
    (unused.steps history).1.board.telemetry.length = 16 ∧
      last.board.telemetry = [] ∧ Isolated last := by
  intro history last
  have drains : (unused.steps history).1.Drains :=
    drains_of_onePoll (by decide) (by decide) (by decide)
  exact ⟨by decide,
    isolated_of_stop unused whole_unused history [.command .poll, .script []] drains (by simp)⟩

end Engine

/-! ## Runs that end in a full poll -/

namespace Telemetry

theorem Record.any_isFinal_takeAll (r : Record) (offset : UInt64) {tokens : List Token}
    (ends : .endOfRun ∈ tokens) : (r.takeAll offset tokens).2.any Record.isFinal = true := by
  induction tokens generalizing r with
  | nil => cases ends
  | cons token tokens ih =>
      rw [takeAll, List.any_append]
      rcases List.mem_cons.1 ends with rfl | later
      · rfl
      · rw [ih _ later, Bool.or_true]

/-- An end of the run behind words that announce nothing. -/
theorem Decoder.endOfRun_mem_nextAll {w : UInt64} (plain : (({} : Decoder).next w).1 = {})
    (count : Nat) :
    .endOfRun ∈ (({} : Decoder).nextAll (List.replicate count w ++ [Variable.endOfRun])).2.1 := by
  induction count with
  | zero => exact List.mem_singleton_self _
  | succ count ih =>
      rw [List.replicate_succ, List.cons_append, Decoder.nextAll]
      dsimp only
      rw [plain]
      exact List.mem_append_right _ ih

end Telemetry

namespace Engine

/-- A stop reads no further than its first poll if that tells a final record. -/
theorem telemetry_stop_of_final {e : Engine} (whole : Whole e) (busy : e.state ≠ .idle)
    (polling : e.settings.stopPolls ≠ 0)
    (final : e.stopping.poll.2.1.any Record.isFinal = true) :
    e.stop.1.board.telemetry = e.stopping.board.telemetry.drop pollLimit := by
  obtain ⟨count, polls⟩ := Nat.exists_eq_succ_of_ne_zero polling
  rw [board_stop busy, polls, drain]
  dsimp only
  rw [if_pos final, telemetry_poll whole.stopping]

section FullPoll

variable {e : Engine} {words : List UInt64}

/-- A run that was just started. -/
theorem steps_script_start (idle : e.state = .idle) (words : List UInt64) :
    (e.steps [.script words, .command .start]).1 =
      { ({ e with board := { e.board with runTelemetry := bytesOfWords words } }.trigger .start) with
        state := .running, assembler := e.assembler.reset } := by
  simp only [steps, step, perform]
  rw [start_of_idle (by exact idle)]
  rfl

/-- **A run whose end stands in a full poll leaves the marker of the board**, whenever it is
stopped before that poll. -/
theorem telemetry_stop_of_fullPoll (idle : e.state = .idle) (waiting : e.board.telemetry = [])
    (polling : e.settings.stopPolls ≠ 0) (full : words.length = 4095)
    (ends : .endOfRun ∈ (({} : Telemetry.Decoder).nextAll words).2.1) :
    (e.steps [.script words, .command .start]).1.stop.1.board.telemetry =
      bytesOfWord Variable.endOfRun := by
  have length : (bytesOfWords words).length = pollLimit := by
    rw [length_bytesOfWords, full]
    rfl
  generalize started : (e.steps [.script words, .command .start]).1 = e'
  rw [steps_script_start idle] at started
  have laidDown : e'.board.telemetry = bytesOfWords words := by
    rw [← started, trigger, Board.telemetry_trigger, waiting]
    rfl
  have run : e'.board.runTelemetry = bytesOfWords words := by
    rw [← started, trigger, Board.runTelemetry_trigger]
  have running : e'.board.running = true := by
    rw [← started]
    rfl
  have busy : e'.state = .running := by rw [← started]
  have whole : Whole e' :=
    ⟨by rw [laidDown, length]; decide, by rw [run, length]; decide⟩
  have stopping : e'.stopping.board.telemetry =
      bytesOfWords words ++ bytesOfWord Variable.endOfRun := by
    rw [(telemetry_stopping e').1, laidDown, Board.puts, if_pos running]
  have final : e'.stopping.poll.2.1.any Record.isFinal = true := by
    have fresh : e'.stopping.assembler.decoder = {} := by
      rw [← started]
      rfl
    rw [any_isFinal_poll whole.stopping, stopping, ← length, List.take_left]
    have records := (Prod.ext_iff.1 (Telemetry.Assembler.feed_records e'.stopping.assembler
      (bytesOfWords words))).2
    rw [Telemetry.Assembler.tokensOf_bytesOfWords fresh] at records
    rw [show (e'.stopping.assembler.feed (bytesOfWords words)).2.1 = _ from records,
      Record.any_isFinal_takeAll _ _ ends, Bool.true_or]
  rw [telemetry_stop_of_final whole (by rw [busy]; decide)
    (by rw [← started]; exact polling) final, stopping, ← length, List.drop_left]

/-- What a poll tells of telemetry that waits when a run starts. -/
theorem any_isFinal_poll_of_start {next : Engine} (started : e.start = .ok next)
    (silent : e.board.runTelemetry = []) (waiting : e.board.telemetry = bytesOfWords words)
    (short : words.length ≤ 4095) :
    next.poll.2.1.any Record.isFinal =
      ((Record.takeAll {} next.assembler.clockOffset
        (({} : Telemetry.Decoder).nextAll words).2.1).2.any Record.isFinal ||
          (next.board.wire .telemetryStatus &&& Board.overrunBit != 0 &&
            (Record.takeAll {} next.assembler.clockOffset
              (({} : Telemetry.Decoder).nextAll words).2.1).1.isFinal)) := by
  obtain ⟨_, rfl⟩ := start_eq_ok started
  generalize running : ({ e.trigger .start with state := .running, assembler := e.assembler.reset } :
    Engine) = next
  have laidDown : next.board.telemetry = bytesOfWords words := by
    rw [← running, trigger, Board.telemetry_trigger, waiting, Board.puts, silent, List.append_nil]
  have run : next.board.runTelemetry = [] := by
    rw [← running, trigger, Board.runTelemetry_trigger, silent]
  have length := length_bytesOfWords words
  have whole : Whole next := ⟨by rw [laidDown, length]; exact Nat.dvd_mul_right _ _, by simp [run]⟩
  have decoder : next.assembler.decoder = {} := by rw [← running]; rfl
  have current : next.assembler.current = {} := by rw [← running]; rfl
  have fed := Telemetry.Assembler.feed_records next.assembler (bytesOfWords words)
  rw [current, Telemetry.Assembler.tokensOf_bytesOfWords decoder] at fed
  rw [any_isFinal_poll whole, laidDown, List.take_of_length_le (by rw [length, pollLimit]; omega),
    ← fed]

/-- **Records of such a run and those of the next are mixed.** -/
theorem not_isolated_of_fullPoll (idle : e.state = .idle) (waiting : e.board.telemetry = [])
    (polling : e.settings.stopPolls ≠ 0) (full : words.length = 4095)
    (ends : .endOfRun ∈ (({} : Telemetry.Decoder).nextAll words).2.1) :
    ¬ Isolated
      ((e.steps [.script words, .command .start]).1.stop.1.steps [.script []]).1 := by
  have left := telemetry_stop_of_fullPoll idle waiting polling full ends
  have idle' := state_stop (e.steps [.script words, .command .start]).1
  generalize (e.steps [.script words, .command .start]).1.stop.1 = e' at left idle'
  intro isolated
  generalize last : (e'.steps [.script []]).1 = e'' at isolated
  have left' : e''.board.telemetry = bytesOfWords [Variable.endOfRun] := by
    rw [← last]
    exact left.trans (List.append_nil _).symm
  have idle'' : e''.state = .idle := by
    rw [← last]
    exact idle'
  have silent : e''.board.runTelemetry = [] := by rw [← last]; rfl
  obtain ⟨next, started⟩ : ∃ next, e''.start = .ok next := ⟨_, start_of_idle idle''⟩
  obtain ⟨fresh, startedFresh, same⟩ := isolated next started
  have mixed : next.poll.2.1.any Record.isFinal = fresh.poll.2.1.any Record.isFinal := by
    have polled := same [.command .poll]
    simp only [steps, List.append_nil] at polled
    exact congrArg (fun records => records.any Record.isFinal) polled
  rw [any_isFinal_poll_of_start started silent left' (by decide),
    any_isFinal_poll_of_start startedFresh silent (show _ = bytesOfWords [] from rfl)
      (by decide)] at mixed
  rw [Record.any_isFinal_takeAll _ _ (by exact List.mem_singleton_self _), Bool.true_or] at mixed
  cases mixed.trans (Bool.and_false _)

end FullPoll

/-- A run of 4094 counts that ends by itself. -/
def longRun : List UInt64 := List.replicate 4094 0x0100000000000001 ++ [Variable.endOfRun]

/-- Not every run that starts after a stop is isolated. -/
theorem not_isolated_longRun :
    ¬ ∀ (e : Engine) (history between : List Step), Whole e → .command .start ∉ between →
      Isolated ((e.steps history).1.stop.1.steps between).1 := by
  intro isolated
  have full : longRun.length = 4095 := by
    rw [longRun, List.length_append, List.length_replicate]
    rfl
  have ends : .endOfRun ∈ (({} : Telemetry.Decoder).nextAll longRun).2.1 := by
    rw [longRun]
    exact Telemetry.Decoder.endOfRun_mem_nextAll rfl 4094
  exact not_isolated_of_fullPoll (e := unused) rfl rfl (by decide) full ends
    (isolated unused [.script longRun, .command .start] [.script []] whole_unused (by simp))

end Engine

end PulseSequencer
