import PulseSequencer.Proofs.Telemetry.Cuts
import Mathlib.Data.List.Induction

/-
# PulseSequencer.Proofs.Telemetry.Segments -- the tokens that a record is made of

What comes to an assembler, tokens and overruns, falls into segments.  A segment ends
behind a token that ends the run, at an overrun, or before a scan value if it has one
already: `Segmented` has one rule for each.  What a record says about tokens is read
off them channel by channel and kind by kind, with no regard to how they came
(`Record.ofTokens`).

Main statement: `records_of_segments`.  Everything that comes is segmented in one way,
the records are those of the segments, and the record that is being filled is that of
the tokens behind the last of them.
-/

namespace PulseSequencer.Telemetry

set_option autoImplicit false

/-! ## What tokens tell -/

namespace Token

/-- The exit code that a token ends the run with. -/
@[simp] def exitcode? : Token → Option UInt64
  | .endOfRun => some Variable.endOfRun
  | .exitcode code => some code
  | _ => none

@[simp] def scanValue? : Token → Option UInt64
  | .scanValue value => some value
  | _ => none

@[simp] def dependentValue? : Token → Option UInt64
  | .dependentValue value => some value
  | _ => none

@[simp] def timingViolation? : Token → Option UInt16
  | .timingViolation address => some address
  | _ => none

@[simp] def other? : Token → Option UInt64
  | .other value => some value
  | _ => none

@[simp] def count? : Token → Option (UInt8 × UInt64)
  | .count channel n => some (channel, n)
  | _ => none

/-- A timestamp, or the start of a gate, which has none. -/
@[simp] def mark? : Token → Option (UInt8 × Option UInt64)
  | .timestamp channel time => some (channel, some time)
  | .gateStart channel _ => some (channel, none)
  | _ => none

@[simp] def result? : Token → Option (UInt8 × Int64)
  | .result channel value => some (channel, value)
  | _ => none

@[simp] def dedicated? : Token → Option (UInt8 × UInt64)
  | .dedicated channel value => some (channel, value)
  | _ => none

@[simp] def adcMean? : Token → Option (UInt8 × Float)
  | .adcMean channel mean => some (channel, mean)
  | _ => none

/-- A time on the clock of a host that read `offset` when the device's stood at zero.  The
host's clock ends at 64 bits. -/
def hostTime (offset time : UInt64) : UInt64 :=
  UInt64.ofNat (min (offset.toNat + time.toNat) 0xffffffffffffffff)

@[simp] def hostTick? (offset : UInt64) : Token → Option (UInt8 × UInt64)
  | .timeTick channel time => some (channel, hostTime offset time)
  | _ => none

end Token

section Channels

variable {α β : Type}

/-- The values of one channel, in order. -/
def ofChannel (pairs : List (UInt8 × α)) (channel : Nat) : List α :=
  (pairs.filter fun pair => pair.1.toNat == channel).map Prod.snd

/-- The number of channels up to the highest one. -/
def channels (pairs : List (UInt8 × α)) : Nat :=
  pairs.foldl (fun n pair => max n (pair.1.toNat + 1)) 0

/-- The values of every channel up to the highest one. -/
def byChannel (pairs : List (UInt8 × α)) : List (List α) :=
  (List.range (channels pairs)).map (ofChannel pairs)

@[simp] theorem byChannel_nil : byChannel ([] : List (UInt8 × α)) = [] := rfl

theorem channels_append (pairs : List (UInt8 × α)) (channel : UInt8) (x : α) :
    channels (pairs ++ [(channel, x)]) = max (channels pairs) (channel.toNat + 1) := by
  rw [channels, List.foldl_append]
  rfl

theorem ofChannel_append (pairs : List (UInt8 × α)) (channel : UInt8) (x : α) (k : Nat) :
    ofChannel (pairs ++ [(channel, x)]) k =
      if k = channel.toNat then ofChannel pairs k ++ [x] else ofChannel pairs k := by
  by_cases here : k = channel.toNat
  · simp [ofChannel, here]
  · have other : (channel.toNat == k) = false := by simp [Ne.symm here]
    simp [ofChannel, here, other]

theorem getElem?_byChannel (pairs : List (UInt8 × α)) (k : Nat) :
    (byChannel pairs)[k]? = if k < channels pairs then some (ofChannel pairs k) else none := by
  rw [byChannel, List.getElem?_map]
  split
  · rename_i inside
    rw [List.getElem?_range inside, Option.map_some]
  · rename_i outside
    rw [List.getElem?_eq_none (by simpa using outside), Option.map_none]

theorem ofChannel_of_le {pairs : List (UInt8 × α)} {k : Nat} (outside : channels pairs ≤ k) :
    ofChannel pairs k = [] := by
  induction pairs using List.reverseRecOn with
  | nil => rfl
  | append_singleton pairs pair ih =>
      obtain ⟨channel, x⟩ := pair
      rw [channels_append] at outside
      rw [ofChannel_append, if_neg (by omega), ih (by omega)]

/-- What a record has for a channel. -/
theorem getD_byChannel (pairs : List (UInt8 × α)) (k : Nat) :
    (byChannel pairs)[k]?.getD [] = ofChannel pairs k := by
  rw [getElem?_byChannel]
  split
  · rfl
  · rename_i outside
    exact (ofChannel_of_le (Nat.le_of_not_lt outside)).symm

/-- Channels below the one that is changed are filled up, and those above it stay. -/
theorem getElem?_onChannel (empty : α) (change : α → α) (channel k : Nat) (items : List α) :
    (onChannel empty change channel items)[k]? =
      if k = channel then some (change (items[k]?.getD empty))
      else if k < channel then some (items[k]?.getD empty) else items[k]? := by
  induction channel generalizing items k with
  | zero => cases items <;> cases k <;> simp [onChannel]
  | succ n ih => cases items <;> cases k <;> simp [onChannel, ih]

theorem map_onChannel {empty : α} {empty' : β} {change : α → α} {change' : β → β} (f : α → β)
    (fills : f empty = empty') (changes : ∀ x, f (change x) = change' (f x)) (channel : Nat)
    (items : List α) :
    (onChannel empty change channel items).map f =
      onChannel empty' change' channel (items.map f) := by
  induction channel generalizing items with
  | zero => cases items <;> simp [onChannel, fills, changes]
  | succ n ih => cases items <;> simp [onChannel, fills, ih]

/-- **One value more of a channel.** -/
theorem byChannel_append (pairs : List (UInt8 × α)) (channel : UInt8) (x : α) :
    byChannel (pairs ++ [(channel, x)]) = addOn channel x (byChannel pairs) := by
  refine List.ext_getElem? fun k => ?_
  rw [addOn, getElem?_onChannel, getD_byChannel, getElem?_byChannel, getElem?_byChannel,
    channels_append, ofChannel_append]
  by_cases here : k = channel.toNat
  · rw [if_pos (by omega), if_pos here, if_pos here]
  · rw [if_neg here, if_neg here]
    by_cases below : k < channel.toNat
    · rw [if_pos (by omega), if_pos below]
    · have same : k < max (channels pairs) (channel.toNat + 1) ↔ k < channels pairs := by omega
      simp only [same, if_neg below]

end Channels

/-! ### Windows -/

/-- The times before the first start of a gate. -/
def leading (marks : List (Option UInt64)) : List UInt64 :=
  (marks.takeWhile Option.isSome).filterMap id

@[simp] theorem leading_none (marks : List (Option UInt64)) : leading (none :: marks) = [] := rfl

@[simp] theorem leading_some (time : UInt64) (marks : List (Option UInt64)) :
    leading (some time :: marks) = time :: leading marks := rfl

/-- For each start of a gate the times up to the next one. -/
def gated : List (Option UInt64) → List (List UInt64)
  | [] => []
  | none :: marks => leading marks :: gated marks
  | some _ :: marks => gated marks

/-- One window for each gate; times before the first gate have a window of their own. -/
def windows (marks : List (Option UInt64)) : List (List UInt64) :=
  if leading marks = [] then gated marks else leading marks :: gated marks

theorem addToWindow_cons (time : UInt64) (window : List UInt64) {others : List (List UInt64)}
    (more : others ≠ []) :
    addToWindow time (window :: others) = window :: addToWindow time others := by
  obtain ⟨init, last, rfl⟩ : ∃ init last, others = init ++ [last] :=
    ⟨_, _, (List.dropLast_concat_getLast more).symm⟩
  rw [addToWindow, addToWindow, ← List.cons_append, List.getLast?_concat, List.getLast?_concat]
  dsimp only
  rw [List.dropLast_concat, List.dropLast_concat, List.cons_append]

theorem leading_append_gate (marks : List (Option UInt64)) :
    leading (marks ++ [none]) = leading marks := by
  induction marks with
  | nil => rfl
  | cons mark marks ih => cases mark <;> simp [ih]

theorem gated_append_gate (marks : List (Option UInt64)) :
    gated (marks ++ [none]) = gated marks ++ [[]] := by
  induction marks with
  | nil => rfl
  | cons mark marks ih => cases mark <;> simp [gated, ih, leading_append_gate]

theorem windows_append_gate (marks : List (Option UInt64)) :
    windows (marks ++ [none]) = windows marks ++ [[]] := by
  rw [windows, windows, leading_append_gate, gated_append_gate]
  split <;> rfl

theorem gated_eq_nil_iff {marks : List (Option UInt64)} : gated marks = [] ↔ none ∉ marks := by
  induction marks with
  | nil => simp [gated]
  | cons mark marks ih => cases mark <;> simp [gated, ih]

theorem leading_append_time (marks : List (Option UInt64)) (time : UInt64) :
    leading (marks ++ [some time]) =
      if none ∈ marks then leading marks else leading marks ++ [time] := by
  induction marks with
  | nil => rfl
  | cons mark marks ih =>
      cases mark with
      | none => simp
      | some first =>
          rw [List.cons_append, leading_some, ih, leading_some]
          by_cases there : none ∈ marks <;> simp [there]

theorem gated_append_time {marks : List (Option UInt64)} (time : UInt64) (gate : none ∈ marks) :
    gated (marks ++ [some time]) = addToWindow time (gated marks) := by
  induction marks with
  | nil => cases gate
  | cons mark marks ih =>
      cases mark with
      | none =>
          by_cases later : none ∈ marks
          · have more : gated marks ≠ [] := fun is => gated_eq_nil_iff.1 is later
            rw [List.cons_append, gated, leading_append_time, if_pos later, ih later, gated,
              addToWindow_cons time _ more]
          · have last : gated marks = [] := gated_eq_nil_iff.2 later
            have still : gated (marks ++ [some time]) = [] :=
              gated_eq_nil_iff.2 (by simpa using later)
            rw [List.cons_append, gated, leading_append_time, if_neg later, still, gated, last]
            rfl
      | some first => exact ih (by simpa using gate)

theorem windows_append_time (marks : List (Option UInt64)) (time : UInt64) :
    windows (marks ++ [some time]) = addToWindow time (windows marks) := by
  rw [windows, windows, leading_append_time]
  by_cases gate : none ∈ marks
  · have more : gated marks ≠ [] := fun is => gated_eq_nil_iff.1 is gate
    rw [if_pos gate, gated_append_time time gate]
    split
    · rfl
    · rw [addToWindow_cons time _ more]
  · have still : gated (marks ++ [some time]) = [] := gated_eq_nil_iff.2 (by simpa using gate)
    rw [if_neg gate, if_neg (by simp), still, gated_eq_nil_iff.2 gate]
    split
    · rename_i none'
      rw [none']
      rfl
    · rfl

theorem windows_byChannel_time (pairs : List (UInt8 × Option UInt64)) (channel : UInt8)
    (time : UInt64) :
    (byChannel (pairs ++ [(channel, some time)])).map windows =
      onChannel [] (addToWindow time) channel.toNat ((byChannel pairs).map windows) := by
  rw [byChannel_append, addOn]
  exact map_onChannel windows rfl (fun marks => windows_append_time marks time) _ _

theorem windows_byChannel_gate (pairs : List (UInt8 × Option UInt64)) (channel : UInt8) :
    (byChannel (pairs ++ [(channel, none)])).map windows =
      addOn channel [] ((byChannel pairs).map windows) := by
  rw [byChannel_append, addOn]
  exact map_onChannel windows rfl windows_append_gate _ _

theorem getLast?_byChannel {α : Type} (pairs : List (UInt8 × α)) (channel : UInt8) (x : α) :
    (byChannel (pairs ++ [(channel, x)])).map List.getLast? =
      onChannel none (fun _ => some x) channel.toNat ((byChannel pairs).map List.getLast?) := by
  rw [byChannel_append, addOn]
  exact map_onChannel List.getLast? rfl (fun _ => List.getLast?_concat) _ _

theorem Token.hostTime_eq (offset time : UInt64) :
    hostTime offset time =
      if offset + time < offset then 0xffffffffffffffff else offset + time := by
  have small := offset.toNat_lt
  have small' := time.toNat_lt
  refine UInt64.toNat_inj.1 ?_
  rw [hostTime, UInt64.toNat_ofNat']
  simp only [UInt64.lt_iff_toNat_lt, UInt64.toNat_add]
  split
  · rename_i wraps
    show _ = 0xffffffffffffffff
    omega
  · rename_i fits
    rw [UInt64.toNat_add]
    omega

/-! ## Segments -/

/-- Why a record is closed. -/
inductive Ending where
  | run (exitcode : UInt64)
  | overrun
  /-- The next segment begins with the next scan value. -/
  | nextScan
deriving DecidableEq

namespace Record

/-- The record of tokens, closed or still to be filled. -/
def ofTokens (offset : UInt64) (tokens : List Token) (ending : Option Ending) : Record where
  counts := byChannel (tokens.filterMap Token.count?)
  timestamps := (byChannel (tokens.filterMap Token.mark?)).map windows
  results := byChannel (tokens.filterMap Token.result?)
  dedicated := byChannel (tokens.filterMap Token.dedicated?)
  adcMeans := (byChannel (tokens.filterMap Token.adcMean?)).map List.getLast?
  timeTicks := byChannel (tokens.filterMap (Token.hostTick? offset))
  other := tokens.filterMap Token.other?
  scanValue := (tokens.filterMap Token.scanValue?).head?
  dependentValues := tokens.filterMap Token.dependentValue?
  timingViolations := tokens.filterMap Token.timingViolation?
  isFinal := match ending with
    | some (.run _) => true
    | _ => false
  exitcode := match ending with
    | some (.run code) => some code
    | _ => none
  overrun := ending == some .overrun

end Record

/-- Tokens without a boundary between them. -/
structure Undivided (tokens : List Token) : Prop where
  goesOn : ∀ token ∈ tokens, token.exitcode? = none
  once : (tokens.filterMap Token.scanValue?).length ≤ 1

/-- What comes to an assembler. -/
inductive Arrival where
  | token (token : Token)
  /-- The device lost data. -/
  | overrun

def Arrival.token? : Arrival → Option Token
  | .token t => some t
  | .overrun => none

/-- The tokens of a closed record. -/
structure Segment where
  tokens : List Token
  ending : Ending

/-- What comes, its closed segments, and the tokens behind them. -/
inductive Segmented : List Arrival → List Segment → List Token → Prop
  | filling {tokens : List Token} (undivided : Undivided tokens) :
      Segmented (tokens.map .token) [] tokens
  | run {tokens rest : List Token} {last : Token} {code : UInt64} {arrivals : List Arrival}
      {segments : List Segment} (undivided : Undivided tokens)
      (ends : last.exitcode? = some code) (behind : Segmented arrivals segments rest) :
      Segmented (tokens.map .token ++ .token last :: arrivals)
        (⟨tokens ++ [last], .run code⟩ :: segments) rest
  | overrun {tokens rest : List Token} {arrivals : List Arrival} {segments : List Segment}
      (undivided : Undivided tokens) (behind : Segmented arrivals segments rest) :
      Segmented (tokens.map .token ++ .overrun :: arrivals) (⟨tokens, .overrun⟩ :: segments) rest
  | nextScan {tokens rest : List Token} {value : UInt64} {arrivals : List Arrival}
      {segments : List Segment} (undivided : Undivided tokens)
      (again : tokens.filterMap Token.scanValue? ≠ [])
      (behind : Segmented (.token (.scanValue value) :: arrivals) segments rest) :
      Segmented (tokens.map .token ++ .token (.scanValue value) :: arrivals)
        (⟨tokens, .nextScan⟩ :: segments) rest

namespace Undivided

variable {tokens : List Token}

theorem nil : Undivided [] := ⟨fun _ there => absurd there List.not_mem_nil, Nat.zero_le 1⟩

theorem scanValue (value : UInt64) : Undivided [.scanValue value] :=
  ⟨List.forall_mem_singleton.2 rfl, Nat.le_refl 1⟩

/-- A second scan value and the end of a run are the only tokens that divide. -/
theorem append (undivided : Undivided tokens) {token : Token} (goesOn : token.exitcode? = none)
    (once : token.scanValue? = none ∨ tokens.filterMap Token.scanValue? = []) :
    Undivided (tokens ++ [token]) where
  goesOn := List.forall_mem_append.2 ⟨undivided.goesOn, List.forall_mem_singleton.2 goesOn⟩
  once := by
    rw [List.filterMap_append, List.length_append]
    rcases once with none' | none'
    · have nothing : [token].filterMap Token.scanValue? = [] := by
        rw [List.filterMap_cons, none']
        rfl
      rw [nothing]
      exact undivided.once
    · rw [none', List.length_nil, Nat.zero_add]
      exact List.length_filterMap_le ..

end Undivided

/-! ## The records of segments -/

/-- What comes behind the tokens of an open segment closes it or not, and leaves the
tokens of an open one. -/
def segmentStep (tokens : List Token) : Arrival → List Token × Option Segment
  | .overrun => ([], some ⟨tokens, .overrun⟩)
  | .token token =>
      match token.exitcode? with
      | some code => ([], some ⟨tokens ++ [token], .run code⟩)
      | none =>
          if token.scanValue? = none ∨ tokens.filterMap Token.scanValue? = [] then
            (tokens ++ [token], none)
          else ([token], some ⟨tokens, .nextScan⟩)

/-- The segments of everything that comes behind the tokens of an open one, and the tokens
that are left. -/
def segmentsFrom (tokens : List Token) : List Arrival → List Segment × List Token
  | [] => ([], tokens)
  | arrival :: arrivals =>
      ((segmentStep tokens arrival).2.toList ++
          (segmentsFrom (segmentStep tokens arrival).1 arrivals).1,
        (segmentsFrom (segmentStep tokens arrival).1 arrivals).2)

section

variable {tokens before rest : List Token} {arrivals : List Arrival} {segments : List Segment}

theorem segmentStep_of_once {token : Token} (goesOn : token.exitcode? = none)
    (once : token.scanValue? = none ∨ tokens.filterMap Token.scanValue? = []) :
    segmentStep tokens (.token token) = (tokens ++ [token], none) := by
  simp only [segmentStep, goesOn, if_pos once]

/-- Tokens that nothing divides stay in the open segment. -/
theorem segmentsFrom_append (undivided : Undivided (before ++ tokens)) :
    segmentsFrom before (tokens.map .token ++ arrivals) =
      segmentsFrom (before ++ tokens) arrivals := by
  induction tokens generalizing before with
  | nil => rw [List.append_nil]; rfl
  | cons token tokens ih =>
      have onward : before ++ token :: tokens = before ++ [token] ++ tokens := by simp
      have goesOn : token.exitcode? = none := undivided.goesOn token (by simp)
      have once : token.scanValue? = none ∨ before.filterMap Token.scanValue? = [] := by
        have most := undivided.once
        cases value : token.scanValue? with
        | none => exact .inl rfl
        | some v =>
            rw [List.filterMap_append, List.length_append, List.filterMap_cons, value] at most
            simp only [List.length_cons] at most
            exact .inr (List.length_eq_zero_iff.1 (by omega))
      rw [onward] at undivided ⊢
      rw [List.map_cons, List.cons_append, segmentsFrom, segmentStep_of_once goesOn once,
        ih undivided]
      rfl

theorem segmentsFrom_of_undivided (undivided : Undivided tokens) (arrivals : List Arrival) :
    segmentsFrom [] (tokens.map .token ++ arrivals) = segmentsFrom tokens arrivals := by
  have onward : Undivided ([] ++ tokens) := undivided
  exact segmentsFrom_append onward

theorem segmented_segmentsFrom (undivided : Undivided before) (arrivals : List Arrival) :
    Segmented (before.map .token ++ arrivals) (segmentsFrom before arrivals).1
      (segmentsFrom before arrivals).2 := by
  induction arrivals generalizing before with
  | nil =>
      rw [List.append_nil]
      exact .filling undivided
  | cons arrival arrivals ih =>
      cases arrival with
      | overrun => exact .overrun undivided (ih .nil)
      | token token =>
          rw [segmentsFrom]
          cases ends : token.exitcode? with
          | some code =>
              simp only [segmentStep, ends]
              exact .run undivided ends (ih .nil)
          | none =>
              by_cases once : token.scanValue? = none ∨ before.filterMap Token.scanValue? = []
              · have onward := ih (undivided.append ends once)
                rw [List.map_append, List.append_assoc] at onward
                rw [segmentStep_of_once ends once]
                exact onward
              · simp only [segmentStep, ends, if_neg once]
                obtain ⟨value, again⟩ := not_or.1 once
                cases token <;> try exact absurd rfl value
                exact .nextScan undivided again (ih (.scanValue _))

/-- What comes is segmented in no other way. -/
theorem Segmented.eq_segmentsFrom (segmented : Segmented arrivals segments rest) :
    segmentsFrom [] arrivals = (segments, rest) := by
  induction segmented with
  | filling undivided =>
      have whole := segmentsFrom_of_undivided undivided []
      rwa [List.append_nil] at whole
  | run undivided ends behind ih =>
      rw [segmentsFrom_of_undivided undivided, segmentsFrom]
      simp only [segmentStep, ends, ih]
      rfl
  | overrun undivided behind ih =>
      rw [segmentsFrom_of_undivided undivided, segmentsFrom]
      simp only [segmentStep, ih]
      rfl
  | nextScan undivided again behind ih =>
      rw [segmentsFrom, segmentStep_of_once rfl (.inr rfl)] at ih
      rw [segmentsFrom_of_undivided undivided, segmentsFrom]
      simp only [segmentStep, Token.exitcode?, Token.scanValue?, reduceCtorEq, again, or_self,
        if_false]
      exact congrArg (fun found => (_ :: found.1, found.2)) ih

/-- No token is lost and none is counted twice. -/
theorem Segmented.tokens_eq (segmented : Segmented arrivals segments rest) :
    segments.flatMap Segment.tokens ++ rest = arrivals.filterMap Arrival.token? := by
  have each : ∀ tokens : List Token, (tokens.map .token).filterMap Arrival.token? = tokens :=
    fun tokens => by
      rw [List.filterMap_map]
      exact List.filterMap_some
  induction segmented with
  | filling undivided => exact (each _).symm
  | run undivided ends behind ih =>
      rw [List.filterMap_append, each, List.filterMap_cons, Arrival.token?, ← ih]
      simp
  | overrun undivided behind ih =>
      rw [List.filterMap_append, each, List.filterMap_cons, Arrival.token?, ← ih]
      simp
  | nextScan undivided again behind ih =>
      rw [List.filterMap_append, each, ← ih]
      simp

/-- **A token that divides nothing makes the record of the tokens with it.** -/
theorem Record.take_ofTokens (offset : UInt64) {token : Token} (goesOn : token.exitcode? = none)
    (once : token.scanValue? = none ∨ tokens.filterMap Token.scanValue? = []) :
    (ofTokens offset tokens none).take offset token =
      (ofTokens offset (tokens ++ [token]) none, none) := by
  cases token with
  | endOfRun => cases goesOn
  | exitcode code => cases goesOn
  | scanValue value =>
      have first := once.resolve_left (Option.some_ne_none value)
      simp [take, ofTokens, List.filterMap_cons, first]
  | timestamp channel time =>
      simp [take, add, ofTokens, List.filterMap_cons, windows_byChannel_time]
  | gateStart channel time =>
      simp [take, add, ofTokens, List.filterMap_cons, windows_byChannel_gate]
  | adcMean channel mean => simp [take, add, ofTokens, List.filterMap_cons, getLast?_byChannel]
  | timeTick channel time =>
      simp [take, add, ofTokens, List.filterMap_cons, byChannel_append, Token.hostTime_eq]
  | _ => simp [take, add, ofTokens, List.filterMap_cons, byChannel_append]

theorem Record.take_of_again (offset : UInt64) (again : tokens.filterMap Token.scanValue? ≠ [])
    (value : UInt64) :
    (ofTokens offset tokens none).take offset (.scanValue value) =
      (ofTokens offset [.scanValue value] none, some (ofTokens offset tokens none)) := by
  obtain ⟨first, others, shape⟩ := List.exists_cons_of_ne_nil again
  have some' : (ofTokens offset tokens none).scanValue.isSome = true := by
    simp [ofTokens, shape]
  rw [take, if_pos some']
  rfl

/-- A token that ends the run tells nothing but the exit code. -/
theorem Record.take_of_ends (offset : UInt64) {token : Token} {code : UInt64}
    (ends : token.exitcode? = some code) :
    (ofTokens offset tokens none).take offset token =
      (ofTokens offset [] none, some (ofTokens offset (tokens ++ [token]) (some (.run code)))) := by
  cases token <;> cases ends <;> simp [take, ofTokens, List.filterMap_cons]

end

namespace Assembler

/-- Accounts for what comes, and tells the record that it completes. -/
def takeArrival (a : Assembler) : Arrival → Assembler × Option Record
  | .token token => ((a.apply token).1, (a.apply token).2.1)
  | .overrun => (a.closeOverrun.1, some a.closeOverrun.2)

/-- Accounts for everything in the order in which it comes. -/
def takeArrivals (a : Assembler) : List Arrival → Assembler × List Record
  | [] => (a, [])
  | arrival :: arrivals =>
      (((a.takeArrival arrival).1.takeArrivals arrivals).1,
        (a.takeArrival arrival).2.toList ++ ((a.takeArrival arrival).1.takeArrivals arrivals).2)

theorem takeArrival_clockOffset (a : Assembler) (arrival : Arrival) :
    (a.takeArrival arrival).1.clockOffset = a.clockOffset := by
  cases arrival with
  | token token => exact apply_clockOffset a token
  | overrun => rfl

/-- The record of a segment. -/
def recordOf (a : Assembler) (s : Segment) : Record :=
  .ofTokens a.clockOffset s.tokens (some s.ending)

/-- **One step** makes the record of the segment that it closes, and leaves the record of
an open one. -/
theorem takeArrival_eq {a : Assembler} {tokens : List Token} (arrival : Arrival)
    (filling : a.current = .ofTokens a.clockOffset tokens none) :
    (a.takeArrival arrival).2 = (segmentStep tokens arrival).2.map a.recordOf ∧
      (a.takeArrival arrival).1.current =
        .ofTokens a.clockOffset (segmentStep tokens arrival).1 none := by
  cases arrival with
  | overrun =>
      simp only [takeArrival, closeOverrun, filling]
      exact ⟨rfl, rfl⟩
  | token token =>
      have step := apply_records a token
      rw [filling] at step
      cases ends : token.exitcode? with
      | some code =>
          rw [Record.take_of_ends _ ends] at step
          obtain ⟨current, record⟩ := Prod.mk.inj step
          simp only [segmentStep, ends]
          exact ⟨record, current⟩
      | none =>
          by_cases once : token.scanValue? = none ∨ tokens.filterMap Token.scanValue? = []
          · rw [Record.take_ofTokens _ ends once] at step
            obtain ⟨current, record⟩ := Prod.mk.inj step
            rw [segmentStep_of_once ends once]
            exact ⟨record, current⟩
          · simp only [segmentStep, ends, if_neg once]
            obtain ⟨value, again⟩ := not_or.1 once
            cases token <;> try exact absurd rfl value
            rw [Record.take_of_again _ again] at step
            obtain ⟨current, record⟩ := Prod.mk.inj step
            exact ⟨record, current⟩

/-- **A run** makes the records of the segments that it closes. -/
theorem takeArrivals_eq {a : Assembler} {tokens : List Token} (arrivals : List Arrival)
    (filling : a.current = .ofTokens a.clockOffset tokens none) :
    (a.takeArrivals arrivals).2 = (segmentsFrom tokens arrivals).1.map a.recordOf ∧
      (a.takeArrivals arrivals).1.current =
        .ofTokens a.clockOffset (segmentsFrom tokens arrivals).2 none := by
  induction arrivals generalizing a tokens with
  | nil => exact ⟨rfl, filling⟩
  | cons arrival arrivals ih =>
      have offset := takeArrival_clockOffset a arrival
      obtain ⟨record, left⟩ := takeArrival_eq arrival filling
      obtain ⟨records, last⟩ := ih (offset.symm ▸ left)
      have same : (a.takeArrival arrival).1.recordOf = a.recordOf :=
        funext fun s => by rw [recordOf, recordOf, offset]
      refine ⟨?_, offset ▸ last⟩
      rw [takeArrivals, segmentsFrom, List.map_append, record, records, same,
        Option.toList_map]

end Assembler

/-- **Records of segments.**  From an empty record, everything that comes is segmented in
exactly one way, without a token lost or counted twice.  One record comes out for each
closed segment, in order, and is that of the segment's tokens.  The record that is being
filled is that of the tokens behind the last segment. -/
theorem records_of_segments (a : Assembler) (arrivals : List Arrival) :
    ∃ segments rest, Segmented arrivals segments rest ∧
      (∀ segments' rest', Segmented arrivals segments' rest' →
        segments' = segments ∧ rest' = rest) ∧
      segments.flatMap Segment.tokens ++ rest = arrivals.filterMap Arrival.token? ∧
      ({ a with current := {} }.takeArrivals arrivals).2 =
        segments.map (fun s => .ofTokens a.clockOffset s.tokens (some s.ending)) ∧
      ({ a with current := {} }.takeArrivals arrivals).1.current =
        .ofTokens a.clockOffset rest none := by
  have segmented : Segmented arrivals (segmentsFrom [] arrivals).1 (segmentsFrom [] arrivals).2 :=
    segmented_segmentsFrom .nil arrivals
  have empty : ({ a with current := {} } : Assembler).current =
      .ofTokens ({ a with current := {} } : Assembler).clockOffset [] none := rfl
  obtain ⟨records, last⟩ := Assembler.takeArrivals_eq arrivals empty
  refine ⟨_, _, segmented, fun segments' rest' other => ?_, segmented.tokens_eq, records, last⟩
  rw [other.eq_segmentsFrom]
  exact ⟨rfl, rfl⟩

end PulseSequencer.Telemetry
