import PulseSequencer.Proofs.Bytes
import PulseSequencer.Scan.UpdateStream
import Mathlib.Data.List.Basic

/-
# PulseSequencer.Proofs.Scan.Window -- updates are sent once, in order, and fit

What a burst adds to the words in flight is decided by `fill`: it takes steps from the front
of what is left (`prefix_of_fill`), and either all of it fits the window or an oversized step
goes alone (`fits_or_alone`).  So whatever operations follow one another, the bursts together
are the first steps of the stream, the window is respected, and a stream with nothing in
flight goes on.

A stream keeps its steps in a list.  Words back to back with the offsets of the steps hold the
same (`PackedSteps.Packs`), and all that a stream tells can be read off them (`packed_of_run`).
Of a step that repeats, copies beyond the window make no difference (`nextSteps_of_repeating`).

Main statement: `delivered_of_run`.
-/

namespace PulseSequencer

set_option autoImplicit false

/-- The first steps of a source. -/
def UpdateSource.first : UpdateSource → Nat → List (List UInt64)
  | .steps all, n => all.take n
  | .repeating step, n => List.replicate n step

theorem UpdateSource.take_first (source : UpdateSource) {m n : Nat} (le : m ≤ n) :
    (source.first n).take m = source.first m := by
  cases source with
  | steps all => rw [first, first, List.take_take, Nat.min_eq_left le]
  | repeating step => rw [first, first, List.take_replicate, Nat.min_eq_left le]

/-- Groups of equal size are the words they were cut from. -/
theorem GateSequences.flatten_take_chunks {α : Type} (size : Nat) (xs : List α) (n : Nat) :
    ((chunks size xs).take n).flatten = xs.take (n * max size 1) := by
  fun_induction chunks size xs generalizing n with
  | case1 => simp
  | case2 x rest ih =>
      cases n with
      | zero => simp
      | succ n =>
          have width : (n + 1) * max size 1 = (size - 1 + n * max size 1) + 1 := by
            rw [Nat.succ_mul]
            omega
          rw [List.take_succ_cons, List.flatten_cons, ih, width, List.take_succ_cons, List.take_add,
            List.cons_append]

/-- There are as many groups as the words need. -/
theorem GateSequences.length_chunks {α : Type} (size : Nat) (xs : List α) :
    (chunks size xs).length = (xs.length + (max size 1 - 1)) / max size 1 := by
  fun_induction chunks size xs with
  | case1 =>
      rw [List.length_nil, List.length_nil, Nat.zero_add, Nat.div_eq_of_lt (by omega)]
  | case2 x rest ih =>
      have width : 0 < max size 1 := by omega
      have whole : rest.length + 1 + (max size 1 - 1) = rest.length + max size 1 := by omega
      rw [List.length_cons, ih, List.length_drop, List.length_cons, whole,
        Nat.add_div_right _ width]
      congr 1
      rcases Nat.lt_or_ge rest.length (max size 1 - 1) with short | long
      · rw [Nat.div_eq_of_lt (by omega), Nat.div_eq_of_lt (by omega)]
      · congr 1
        omega

namespace UpdateStream

/-! ## Filling the window -/

theorem prefix_of_fill (window inFlight : Nat) (steps : List (List UInt64)) :
    fill window inFlight steps <+: steps := by
  induction steps generalizing inFlight with
  | nil => exact List.prefix_rfl
  | cons step rest ih =>
      rw [fill]
      split
      · exact (List.cons_prefix_cons).2 ⟨rfl, ih _⟩
      · split
        · exact List.nil_prefix
        · exact (List.cons_prefix_cons).2 ⟨rfl, List.nil_prefix⟩

/-- Steps that are sent fit the window together with the words in flight, or the last one
is longer than the window and there is no other word. -/
theorem fits_or_alone {window inFlight : Nat} {steps : List (List UInt64)}
    (sends : fill window inFlight steps ≠ []) :
    inFlight + (fill window inFlight steps).flatten.length ≤ window ∨
      ∃ before step, fill window inFlight steps = before ++ [step] ∧ window < step.length ∧
        inFlight = 0 ∧ before.flatten = [] := by
  induction steps generalizing inFlight with
  | nil => exact absurd rfl sends
  | cons step rest ih =>
      rw [fill] at sends ⊢
      split at sends
      · rename_i fits
        rw [if_pos fits, List.flatten_cons, List.length_append]
        by_cases more : fill window (inFlight + step.length) rest = []
        · rw [more, List.flatten_nil, List.length_nil]
          exact .inl (by omega)
        · rcases ih more with fits | ⟨before, last, is, long, empty, quiet⟩
          · exact .inl (by omega)
          · have none' : step = [] := List.eq_nil_of_length_eq_zero (by omega)
            refine .inr ⟨step :: before, last, by rw [is, List.cons_append], long, by omega, ?_⟩
            rw [List.flatten_cons, none', quiet, List.append_nil]
      · rename_i tooLong
        split at sends
        · exact absurd rfl sends
        · rename_i empty
          rw [if_neg tooLong, if_neg empty]
          exact .inr ⟨[], step, rfl, by omega, by omega, rfl⟩

/-- With nothing in flight the next step goes, whatever its length. -/
theorem fill_ne_nil {window : Nat} {steps : List (List UInt64)} (left : steps ≠ []) :
    fill window 0 steps ≠ [] := by
  cases steps with
  | nil => exact absurd rfl left
  | cons step rest =>
      rw [fill]
      split
      · exact List.cons_ne_nil _ _
      · simp

/-! ## The steps of a stream -/

/-- No more steps are done than sent, and no more sent than there are. -/
structure InOrder (s : UpdateStream) : Prop where
  completed_le : s.completed ≤ s.sent
  sent_le : (s.source.first s.sent).length = s.sent

variable {s : UpdateStream}

theorem length_first_iff : (s.source.first s.sent).length = s.sent ↔
    ∀ total, s.total? = some total → s.sent ≤ total := by
  cases h : s.source with
  | steps all =>
      simp only [UpdateSource.first, total?, h, List.length_take, Option.some.injEq, forall_eq']
      omega
  | repeating step => simp [UpdateSource.first, total?, h]

theorem outstanding_eq : s.outstanding = (s.source.first s.sent).drop s.completed := by
  cases h : s.source with
  | steps all => simp [outstanding, UpdateSource.first, h]
  | repeating step => simp [outstanding, UpdateSource.first, h]

theorem inFlight_eq : s.inFlight = s.outstanding.flatten.length := by
  cases h : s.source with
  | steps all => simp [inFlight, h]
  | repeating step => simp [inFlight, outstanding, h]

/-- What is sent next are the steps behind those that were sent. -/
theorem first_add_nextSteps :
    s.source.first (s.sent + s.nextSteps.length) = s.source.first s.sent ++ s.nextSteps := by
  have part := List.prefix_iff_eq_take.1 (prefix_of_fill s.window s.inFlight s.upcoming)
  rw [← nextSteps] at part
  cases h : s.source with
  | steps all =>
      have upcoming : s.upcoming = all.drop s.sent := by rw [upcoming, h]
      rw [upcoming] at part
      rw [UpdateSource.first, UpdateSource.first, List.take_add, ← part]
  | repeating step =>
      have same : s.nextSteps = List.replicate s.nextSteps.length step := by
        refine List.eq_replicate_iff.2 ⟨rfl, fun other there => ?_⟩
        have inUpcoming := (prefix_of_fill s.window s.inFlight s.upcoming).subset there
        simp only [upcoming, h] at inUpcoming
        split at inUpcoming
        · cases inUpcoming
        · exact List.eq_of_mem_replicate inUpcoming
      rw [UpdateSource.first, UpdateSource.first, List.replicate_add, ← same]

theorem upcoming_ne_nil (more : s.isExhausted = false)
    (some' : ∀ step, s.source = .repeating step → step ≠ []) : s.upcoming ≠ [] := by
  rw [upcoming]
  cases h : s.source with
  | steps all =>
      have left : s.sent < all.length := by simpa [isExhausted, total?, h] using more
      exact List.ne_nil_of_length_pos (by rw [List.length_drop]; omega)
  | repeating step =>
      simp [List.isEmpty_eq_false_iff.2 (some' step h)]

/-- The steps in flight behind a burst. -/
theorem InOrder.outstanding_nextBurst (inOrder : s.InOrder) :
    s.nextBurst.1.outstanding = s.outstanding ++ s.nextSteps := by
  have le : s.completed ≤ (s.source.first s.sent).length :=
    inOrder.sent_le.symm ▸ inOrder.completed_le
  rw [outstanding_eq, outstanding_eq]
  show (s.source.first (s.sent + s.nextSteps.length)).drop s.completed = _
  rw [first_add_nextSteps, List.drop_append_of_le_length le]

/-- **A burst respects the window**: behind it the words in flight fit, or they are those of
one step that is longer than the window. -/
theorem InOrder.respects (inOrder : s.InOrder) (sends : s.sent < s.nextBurst.1.sent) :
    s.nextBurst.1.inFlight ≤ s.window ∨ ∃ step, s.window < step.length ∧
      (s.source.first s.nextBurst.1.sent).getLast? = some step ∧
      s.nextBurst.1.outstanding.flatten = step := by
  have some' : s.nextSteps ≠ [] := by
    intro none'
    have same : s.nextBurst.1.sent = s.sent := by simp [nextBurst, none']
    omega
  rw [inFlight_eq, inOrder.outstanding_nextBurst, List.flatten_append, List.length_append,
    ← inFlight_eq]
  rcases fits_or_alone some' with fits | ⟨before, step, is, long, empty, quiet⟩
  · exact .inl fits
  · refine .inr ⟨step, long, ?_, ?_⟩
    · show (s.source.first (s.sent + s.nextSteps.length)).getLast? = some step
      rw [first_add_nextSteps, nextSteps, is, ← List.append_assoc, List.getLast?_concat]
    · rw [inFlight_eq] at empty
      rw [List.eq_nil_of_length_eq_zero empty, nextSteps, is, List.flatten_append, quiet]
      simp

/-- **A stream with nothing in flight goes on.** -/
theorem sent_lt_nextBurst (more : s.isExhausted = false)
    (some' : ∀ step, s.source = .repeating step → step ≠ []) (empty : s.inFlight = 0) :
    s.sent < s.nextBurst.1.sent := by
  have sends : s.nextSteps ≠ [] := by
    rw [nextSteps, empty]
    exact fill_ne_nil (upcoming_ne_nil more some')
  exact Nat.lt_add_of_pos_right (List.length_pos_iff.2 sends)

/-! ## Runs -/

/-- What can be done to a stream. -/
inductive Operation where
  | burst
  | complete
  | setWindow (words : Nat)

/-- An operation, and the bytes that it sends. -/
def perform (s : UpdateStream) : Operation → UpdateStream × Bytes
  | .burst => s.nextBurst
  | .complete => (s.stepCompleted.1, [])
  | .setWindow words => ({ s with window := words }, [])

/-- Operations one after the other, and all the bytes that they send. -/
def run (s : UpdateStream) : List Operation → UpdateStream × Bytes
  | [] => (s, [])
  | operation :: rest =>
      let (next, bytes) := s.perform operation
      let (last, more) := next.run rest
      (last, bytes ++ more)

/-- What one operation keeps, and what it sends. -/
theorem InOrder.perform (inOrder : s.InOrder) (operation : Operation) :
    (s.perform operation).1.InOrder ∧ (s.perform operation).1.source = s.source ∧
      bytesOfWords (s.source.first (s.perform operation).1.sent).flatten =
        bytesOfWords (s.source.first s.sent).flatten ++ (s.perform operation).2 := by
  cases operation with
  | burst =>
      have sent : s.nextBurst.1.sent = s.sent + s.nextSteps.length := rfl
      refine ⟨⟨Nat.le_trans inOrder.completed_le (Nat.le_add_right _ _), ?_⟩, rfl, ?_⟩
      · show (s.source.first (s.sent + s.nextSteps.length)).length = s.sent + s.nextSteps.length
        rw [first_add_nextSteps, List.length_append, inOrder.sent_le]
      · show bytesOfWords (s.source.first (s.sent + s.nextSteps.length)).flatten = _
        rw [first_add_nextSteps, List.flatten_append, bytesOfWords_append]
        rfl
  | complete =>
      rw [UpdateStream.perform, stepCompleted]
      split
      · rename_i outstanding
        exact ⟨⟨outstanding, inOrder.sent_le⟩, rfl, (List.append_nil _).symm⟩
      · exact ⟨inOrder, rfl, (List.append_nil _).symm⟩
  | setWindow words =>
      exact ⟨⟨inOrder.completed_le, inOrder.sent_le⟩, rfl, (List.append_nil _).symm⟩

theorem InOrder.run (inOrder : s.InOrder) (operations : List Operation) :
    (s.run operations).1.InOrder ∧ (s.run operations).1.source = s.source ∧
      bytesOfWords (s.source.first (s.run operations).1.sent).flatten =
        bytesOfWords (s.source.first s.sent).flatten ++ (s.run operations).2 := by
  induction operations generalizing s with
  | nil => exact ⟨inOrder, rfl, (List.append_nil _).symm⟩
  | cons operation rest ih =>
      obtain ⟨next, source, sent⟩ := inOrder.perform operation
      obtain ⟨last, source', sent'⟩ := ih next
      rw [source] at source' sent'
      refine ⟨last, source', ?_⟩
      show bytesOfWords (s.source.first ((s.perform operation).1.run rest).1.sent).flatten =
        bytesOfWords (s.source.first s.sent).flatten ++
          ((s.perform operation).2 ++ ((s.perform operation).1.run rest).2)
      rw [sent', sent, List.append_assoc]

/-- **Updates are delivered once and in order, through the window.**  Whatever operations
follow one another on a stream: no more steps are done than sent, and no more sent than
there are; the bursts together are the bytes of the steps that were sent, which are the steps
that are done and those in flight; a burst that sends anything leaves words in flight that
fit the window, or those of a single step that is longer; and with nothing in flight a
burst sends something, as long as there is anything to send. -/
theorem delivered_of_run (source : UpdateSource) (window : Nat) (operations : List Operation) :
    let s := (run ⟨source, window, 0, 0⟩ operations).1
    let bursts := (run ⟨source, window, 0, 0⟩ operations).2
    s.source = source ∧ s.completed ≤ s.sent ∧ (∀ total, s.total? = some total → s.sent ≤ total) ∧
    bursts = bytesOfWords (source.first s.sent).flatten ∧
    (∀ words size, source = (ofWords words size).source →
      bursts = bytesOfWords (words.take (s.sent * max size 1))) ∧
    source.first s.sent = source.first s.completed ++ s.outstanding ∧
    s.inFlight = s.outstanding.flatten.length ∧
    (s.sent < s.nextBurst.1.sent → s.nextBurst.1.inFlight ≤ s.window ∨
      ∃ step, s.window < step.length ∧
        (source.first s.nextBurst.1.sent).getLast? = some step ∧
        s.nextBurst.1.outstanding.flatten = step) ∧
    (s.isExhausted = false → (∀ step, source = .repeating step → step ≠ []) → s.inFlight = 0 →
      s.sent < s.nextBurst.1.sent) := by
  intro s bursts
  have fresh : InOrder ⟨source, window, 0, 0⟩ := ⟨Nat.le_refl _, by cases source <;> rfl⟩
  obtain ⟨inOrder, same, sent⟩ := fresh.run operations
  have nothing : source.first 0 = [] := by cases source <;> rfl
  have sent : bursts = bytesOfWords (source.first s.sent).flatten := by
    rw [nothing] at sent
    exact sent.symm
  change s.source = source at same
  refine ⟨same, inOrder.completed_le, length_first_iff.1 inOrder.sent_le, sent, ?_, ?_, inFlight_eq,
    fun sends => same ▸ inOrder.respects sends,
    fun more some' empty => sent_lt_nextBurst more (same.symm ▸ some') empty⟩
  · rintro words size rfl
    rw [sent]
    exact congrArg bytesOfWords (GateSequences.flatten_take_chunks size words s.sent)
  · rw [outstanding_eq, same, ← source.take_first inOrder.completed_le, List.take_append_drop]

/-- Two steps, the second longer than the window. -/
example : (run ⟨.steps [[1, 2], [3, 3, 3]], 2, 0, 0⟩ [.burst, .burst, .complete, .burst]).2 =
    bytesOfWords [1, 2, 3, 3, 3] := by decide

end UpdateStream

/-! ## Steps back to back -/

/-- Steps back to back: their words, and where each of them begins and the last one ends. -/
structure PackedSteps where
  words : List UInt64
  offsets : List Nat

namespace PackedSteps

/-- Steps that may differ in length. -/
def ofSteps (steps : List (List UInt64)) : PackedSteps where
  words := steps.flatten
  offsets := steps.scanl (fun offset step => offset + step.length) 0

/-- Steps of equal size; the last one may be short. -/
def ofWords (words : List UInt64) (size : Nat) : PackedSteps where
  words := words
  offsets :=
    let width := max size 1
    List.range' 0 ((words.length + (width - 1)) / width) width ++ [words.length]

def count (p : PackedSteps) : Nat := p.offsets.length - 1

def offset (p : PackedSteps) (index : Nat) : Nat := p.offsets[index]?.getD 0

def step (p : PackedSteps) (index : Nat) : List UInt64 :=
  (p.words.drop (p.offset index)).take (p.offset (index + 1) - p.offset index)

/-- The steps that the window has room for: their words, and how many steps are sent behind
them. -/
def burst (p : PackedSteps) (window inFlight sent : Nat) : List UInt64 × Nat :=
  if sent < p.count then
    let step := p.step sent
    if inFlight + step.length ≤ window then
      let (words, last) := p.burst window (inFlight + step.length) (sent + 1)
      (step ++ words, last)
    else if inFlight > 0 then ([], sent)
    else (step, sent + 1)
  else ([], sent)
termination_by p.count - sent

/-- The steps of a list, back to back. -/
structure Packs (p : PackedSteps) (steps : List (List UInt64)) : Prop where
  words : p.words = steps.flatten
  length : p.offsets.length = steps.length + 1
  offset : ∀ i ≤ steps.length, p.offset i = (steps.take i).flatten.length

theorem packs_ofSteps (steps : List (List UInt64)) : (ofSteps steps).Packs steps where
  words := rfl
  length := List.length_scanl
  offset i inside := by
    rw [PackedSteps.offset, ofSteps, List.getElem?_scanl, if_pos inside, Option.getD_some,
      List.length_flatten, List.sum_eq_foldl, List.foldl_map]

theorem packs_ofWords (words : List UInt64) (size : Nat) :
    (ofWords words size).Packs (GateSequences.chunks size words) := by
  have width : 0 < max size 1 := by omega
  have total := GateSequences.length_chunks size words
  have enough : words.length ≤ (GateSequences.chunks size words).length * max size 1 := by
    have rest := Nat.div_add_mod (words.length + (max size 1 - 1)) (max size 1)
    have small := Nat.mod_lt (words.length + (max size 1 - 1)) width
    rw [← total, Nat.mul_comm] at rest
    omega
  have flat (i : Nat) := GateSequences.flatten_take_chunks size words i
  refine ⟨?_, ?_, fun i inside => ?_⟩
  · have all := flat (GateSequences.chunks size words).length
    rw [List.take_length, List.take_of_length_le enough] at all
    exact all.symm
  · rw [ofWords, List.length_append, List.length_range', List.length_singleton, total]
  · rw [flat, List.length_take, PackedSteps.offset, ofWords]
    dsimp only
    rw [← total]
    rcases Nat.lt_or_eq_of_le inside with before | rfl
    · have begins : i * max size 1 ≤ words.length := by
        rw [total, Nat.lt_div_iff_mul_lt width] at before
        omega
      rw [List.getElem?_append_left (by rwa [List.length_range']), List.getElem?_range' before,
        Option.getD_some, Nat.zero_add, Nat.mul_comm, Nat.min_eq_left begins]
    · rw [List.getElem?_append_right (by rw [List.length_range']), List.length_range',
        Nat.sub_self, List.getElem?_cons_zero, Option.getD_some, Nat.min_eq_right enough]

variable {p : PackedSteps} {steps : List (List UInt64)}

theorem Packs.count_eq (packs : p.Packs steps) : p.count = steps.length := by
  rw [count, packs.length, Nat.add_sub_cancel]

/-- Between two offsets stand the steps from the one to the other. -/
theorem Packs.offset_add (packs : p.Packs steps) {first last : Nat} (order : first ≤ last)
    (inside : last ≤ steps.length) :
    p.offset first + ((steps.take last).drop first).flatten.length = p.offset last := by
  have split := List.take_append_drop first (steps.take last)
  rw [List.take_take, Nat.min_eq_left order] at split
  rw [packs.offset first (Nat.le_trans order inside), packs.offset last inside,
    ← List.length_append, ← List.flatten_append, split]

theorem Packs.step_eq (packs : p.Packs steps) {i : Nat} (inside : i < steps.length) :
    p.step i = steps[i] := by
  have begins := packs.offset i (Nat.le_of_lt inside)
  have ends := packs.offset_add (Nat.le_succ i) inside
  have single : (steps.take (i + 1)).drop i = [steps[i]] := by
    rw [List.take_succ_eq_append_getElem inside,
      List.drop_left' (List.length_take_of_le (Nat.le_of_lt inside))]
  rw [single, List.flatten_singleton] at ends
  have split : steps.flatten =
      (steps.take i).flatten ++ (steps[i] ++ (steps.drop (i + 1)).flatten) := by
    rw [← List.flatten_cons, ← List.drop_eq_getElem_cons inside, ← List.flatten_append,
      List.take_append_drop]
  rw [step, packs.words, ← ends, Nat.add_sub_cancel_left, split, List.drop_left' begins.symm,
    List.take_left' rfl]

theorem Packs.drop_eq (packs : p.Packs steps) {i : Nat} (inside : i < p.count) :
    steps.drop i = p.step i :: steps.drop (i + 1) := by
  rw [packs.count_eq] at inside
  rw [packs.step_eq inside, List.drop_eq_getElem_cons inside]

/-- **A burst is the same**: its words are those of the steps that fill the window. -/
theorem Packs.burst_eq (packs : p.Packs steps) (window inFlight sent : Nat) :
    p.burst window inFlight sent =
      ((UpdateStream.fill window inFlight (steps.drop sent)).flatten,
        sent + (UpdateStream.fill window inFlight (steps.drop sent)).length) := by
  fun_induction p.burst window inFlight sent with
  | case1 inFlight sent more step fits words last found ih =>
      obtain ⟨rfl, rfl⟩ := Prod.mk.inj (found.symm.trans ih)
      rw [packs.drop_eq more, UpdateStream.fill, if_pos fits, List.flatten_cons, List.length_cons,
        Nat.add_assoc, Nat.add_comm 1]
  | case2 inFlight sent more step tooLong waits =>
      rw [packs.drop_eq more, UpdateStream.fill, if_neg tooLong, if_pos waits]
      rfl
  | case3 inFlight sent more step tooLong empty =>
      rw [packs.drop_eq more, UpdateStream.fill, if_neg tooLong, if_neg empty,
        List.flatten_singleton, List.length_singleton]
  | case4 inFlight sent none' =>
      rw [packs.count_eq, Nat.not_lt] at none'
      rw [List.drop_eq_nil_of_le none', UpdateStream.fill]
      rfl

end PackedSteps

namespace UpdateStream

variable {s : UpdateStream}

/-- **Lists of steps are steps back to back.**  Whatever operations follow one another on a
stream: the number of steps, the words in flight and the next burst are read off the words and
the offsets. -/
theorem packed_of_run {p : PackedSteps} {steps : List (List UInt64)} (packs : p.Packs steps)
    (window : Nat) (operations : List Operation) :
    let s := (run ⟨.steps steps, window, 0, 0⟩ operations).1
    s.total? = some p.count ∧ s.inFlight = p.offset s.sent - p.offset s.completed ∧
      s.nextBurst = ({ s with sent := (p.burst s.window s.inFlight s.sent).2 },
        bytesOfWords (p.burst s.window s.inFlight s.sent).1) := by
  intro s
  have fresh : InOrder ⟨.steps steps, window, 0, 0⟩ := ⟨Nat.le_refl _, rfl⟩
  obtain ⟨inOrder, source, _⟩ := fresh.run operations
  change s.source = .steps steps at source
  change s.InOrder at inOrder
  have total : s.total? = some p.count := by rw [total?, source, packs.count_eq]
  have inside : s.sent ≤ steps.length := by
    rw [← packs.count_eq]
    exact length_first_iff.1 inOrder.sent_le _ total
  refine ⟨total, ?_, ?_⟩
  · rw [inFlight_eq, outstanding, source, ← packs.offset_add inOrder.completed_le inside,
      Nat.add_sub_cancel_left]
  · rw [packs.burst_eq, nextBurst, nextSteps, upcoming, source]

/-- Copies of a step that go beyond the window are not sent. -/
theorem fill_replicate_add {window inFlight count : Nat} {step : List UInt64}
    (beyond : window < inFlight + count * step.length) (more : Nat) :
    fill window inFlight (List.replicate (count + more) step) =
      fill window inFlight (List.replicate count step) := by
  induction count generalizing inFlight with
  | zero =>
      rw [Nat.zero_mul, Nat.add_zero] at beyond
      cases more with
      | zero => rfl
      | succ more =>
          rw [Nat.zero_add, List.replicate_succ, List.replicate_zero, fill, fill,
            if_neg (by omega), if_pos (by omega)]
  | succ count ih =>
      rw [Nat.succ_mul] at beyond
      rw [Nat.add_right_comm, List.replicate_succ, List.replicate_succ, fill, fill,
        ih (by omega)]

/-- **A repeating step is sent as often as the window has room for it**, as if there were copies
without end. -/
theorem nextSteps_of_repeating {step : List UInt64} (source : s.source = .repeating step)
    (some' : step ≠ []) (more : Nat) :
    s.nextSteps = fill s.window s.inFlight
      (List.replicate (s.window / step.length + 1 + more) step) := by
  have length := List.length_pos_iff.2 some'
  have beyond : s.window < s.inFlight + (s.window / step.length + 1) * step.length := by
    have room : s.window < s.window / step.length * step.length + step.length :=
      Nat.lt_div_mul_add length
    rw [Nat.succ_mul]
    omega
  rw [fill_replicate_add beyond, nextSteps, upcoming, source]
  simp only [List.isEmpty_eq_false_iff.2 some', Bool.false_eq_true, if_false]

end UpdateStream

end PulseSequencer
