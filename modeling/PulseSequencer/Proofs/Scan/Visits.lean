import PulseSequencer.Proofs.Except
import PulseSequencer.Scan.Basic
import Mathlib.Algebra.Order.Ring.Rat
import Mathlib.Data.List.Basic
import Mathlib.Data.List.Chain
import Mathlib.Data.List.InsertIdx
import Mathlib.Data.List.Nodup
import Mathlib.Data.List.Perm.Basic
import Mathlib.Data.List.Range
import Mathlib.Tactic.Linarith

/-
# PulseSequencer.Proofs.Scan.Visits -- every point of a scan is visited

The order in which a scan visits its points is an order of indices (`ScanOrder.pass`), in which
every index stands once (`ScanOrder.pass_perm`), whatever the points are.  From the middle outwards
it is a zigzag, of which the places outside are left out (`outward_eq_zigzag`).  There and
back are two passes, the second in reverse; read exactly, all neighbouring points of a scan
have the same distance, and the turning point is visited once or twice as it is zero or
not.

Main statement: `visits_of_progression`.
-/

namespace PulseSequencer

set_option autoImplicit false

/-! ## From the middle outwards -/

/-- The places at growing distance from the middle, the upper one first. -/
def zigzag (middle k : Nat) : Int :=
  if k % 2 = 0 then middle - (k / 2 : Nat) else middle + ((k + 1) / 2 : Nat)

/-- The index that a place is, unless it lies outside. -/
def index? (length : Nat) (place : Int) : Option Nat :=
  if 0 ≤ place ∧ place < length then some place.toNat else none

/-- The first places of the zigzag, without those outside. -/
def zigzagIndices (length count : Nat) : List Nat :=
  (List.range count).filterMap fun k => index? length (zigzag (length / 2) k)

theorem index?_eq_some_iff {length i : Nat} {place : Int} :
    index? length place = some i ↔ place = i ∧ i < length := by
  rw [index?]
  split
  · rw [Option.some.injEq]
    omega
  · simp only [reduceCtorEq, false_iff]
    omega

theorem index?_zigzag_of_lt {length k : Nat} (beyond : length < k) :
    index? length (zigzag (length / 2) k) = none := by
  rw [index?, zigzag, if_neg]
  split <;> omega

/-- Enough places are all. -/
theorem zigzagIndices_eq {length count : Nat} (enough : length < count) :
    zigzagIndices length count = zigzagIndices length (length + 1) := by
  induction count, enough using Nat.le_induction with
  | base => rfl
  | succ count enough ih =>
      have outside : [count].filterMap (fun k => index? length (zigzag (length / 2) k)) = [] := by
        rw [List.filterMap_cons, index?_zigzag_of_lt enough, List.filterMap_nil]
      rw [zigzagIndices, List.range_succ, List.filterMap_append, outside, List.append_nil,
        ← zigzagIndices, ih]

/-- The place above the middle. -/
theorem index?_upper (length distance : Nat) :
    index? length (zigzag (length / 2) (2 * distance + 1)) =
      if length / 2 + (distance + 1) < length then some (length / 2 + (distance + 1))
      else none := by
  have place : zigzag (length / 2) (2 * distance + 1) = (length / 2 + (distance + 1) : Nat) := by
    rw [zigzag, if_neg (by omega)]
    omega
  rw [place]
  split
  · exact index?_eq_some_iff.2 ⟨rfl, by omega⟩
  · exact if_neg (by omega)

/-- The place below the middle. -/
theorem index?_lower {length : Nat} (some' : 0 < length) (distance : Nat) :
    index? length (zigzag (length / 2) (2 * distance + 2)) =
      if distance + 1 ≤ length / 2 then some (length / 2 - (distance + 1)) else none := by
  have place : zigzag (length / 2) (2 * distance + 2) =
      ((length / 2 : Nat) : Int) - ((distance + 1 : Nat) : Int) := by
    rw [zigzag, if_pos (by omega)]
    omega
  rw [place]
  split
  · exact index?_eq_some_iff.2 ⟨by omega, by omega⟩
  · exact if_neg (by omega)

/-- Two places of the zigzag at a time. -/
theorem zigzagIndices_pairs {length : Nat} (some' : 0 < length) (distance : Nat) :
    zigzagIndices length (2 * distance + 1) =
      length / 2 :: (List.range distance).flatMap fun d => atDistance length (d + 1) := by
  induction distance with
  | zero =>
      have middle : index? length (zigzag (length / 2) 0) = some (length / 2) :=
        index?_eq_some_iff.2 ⟨by simp [zigzag], by omega⟩
      simp [zigzagIndices, middle]
  | succ distance ih =>
      have last : List.range (2 * (distance + 1) + 1) =
          List.range (2 * distance + 1) ++ [2 * distance + 1, 2 * distance + 2] := by
        rw [Nat.mul_succ, List.range_succ, List.range_succ, List.append_assoc]
        rfl
      have pair : [2 * distance + 1, 2 * distance + 2].filterMap
          (fun k => index? length (zigzag (length / 2) k)) = atDistance length (distance + 1) := by
        rw [atDistance, List.filterMap_cons, index?_upper, List.filterMap_cons, index?_lower some']
        split_ifs <;> rfl
      rw [zigzagIndices, last, List.filterMap_append, pair, ← zigzagIndices, ih, List.range_succ,
        List.flatMap_append, List.flatMap_singleton, List.cons_append]

/-- **From the middle outwards** the places of the zigzag are visited that lie inside. -/
theorem outward_eq_zigzag {length count : Nat} (enough : length < count) :
    outward length = zigzagIndices length count := by
  rw [zigzagIndices_eq enough, outward]
  split
  · rename_i none'
    subst none'
    rfl
  · have more : length < 2 * (length / 2 + 1) + 1 := by omega
    rw [← zigzagIndices_eq more, zigzagIndices_pairs (by omega)]

theorem mem_zigzagIndices {length i : Nat} :
    i ∈ zigzagIndices length (length + 1) ↔ i < length := by
  rw [zigzagIndices, List.mem_filterMap]
  constructor
  · rintro ⟨k, _, is⟩
    exact (index?_eq_some_iff.1 is).2
  · intro inside
    by_cases below : i ≤ length / 2
    · refine ⟨2 * (length / 2 - i), List.mem_range.2 (by omega), index?_eq_some_iff.2 ⟨?_, inside⟩⟩
      rw [zigzag, if_pos (by omega)]
      omega
    · refine ⟨2 * (i - length / 2) - 1, List.mem_range.2 (by omega),
        index?_eq_some_iff.2 ⟨?_, inside⟩⟩
      rw [zigzag, if_neg (by omega)]
      omega

theorem nodup_zigzagIndices (length count : Nat) : (zigzagIndices length count).Nodup := by
  refine List.nodup_range.filterMap fun k l i first second => ?_
  have same := (index?_eq_some_iff.1 first).1.trans (index?_eq_some_iff.1 second).1.symm
  rw [zigzag, zigzag] at same
  split at same <;> split at same <;> omega

theorem outward_perm (length : Nat) : (outward length).Perm (List.range length) := by
  rw [outward_eq_zigzag (Nat.lt_succ_self length)]
  refine (List.perm_ext_iff_of_nodup (nodup_zigzagIndices _ _) List.nodup_range).2 fun i => ?_
  rw [mem_zigzagIndices, List.mem_range]

/-! ## Passes -/

namespace ScanOrder

/-- The indices of the points in the order of the first pass. -/
def pass (order : ScanOrder) (shuffle : Shuffle) (seed : Option UInt64) (count : Nat) : List Nat :=
  match order with
  | .up | .upDown => List.range count
  | .down | .downUp => (List.range count).reverse
  | .randomized => shuffle seed count
  | .centerOut => zigzagIndices count (count + 1)

/-- Whether the way back follows. -/
def returns : ScanOrder → Bool
  | .upDown | .downUp => true
  | _ => false

/-- The points of the first pass. -/
def forward {α : Type} (order : ScanOrder) (shuffle : Shuffle) (seed : Option UInt64)
    (points : List α) : List α :=
  match order with
  | .up | .upDown => points
  | .down | .downUp => points.reverse
  | .randomized => (shuffle seed points.length).filterMap fun i => points[i]?
  | .centerOut => (outward points.length).filterMap fun i => points[i]?

variable {α : Type} {order : ScanOrder} {shuffle : Shuffle} {seed : Option UInt64}

/-- The pass of an order with return goes through neighbouring points. -/
theorem isChain_forward (twice : order.returns = true) {R : α → α → Prop}
    (symmetric : ∀ a b, R a b → R b a) {points : List α} (chain : points.IsChain R) :
    (order.forward shuffle seed points).IsChain R := by
  cases order with
  | upDown => exact chain
  | downUp => exact List.isChain_reverse.2 (chain.imp symmetric)
  | _ => cases twice

theorem arrange_of_not_returns [Spaced α] (once : order.returns = false) (points : List α) :
    order.arrange shuffle seed points = order.forward shuffle seed points := by
  cases order <;> first | rfl | cases once

theorem arrange_of_returns [Spaced α] (twice : order.returns = true) (points : List α) :
    order.arrange shuffle seed points = thereAndBack (order.forward shuffle seed points) := by
  cases order <;> first | rfl | cases twice

theorem map_range_getElem? (points : List α) :
    (List.range points.length).map (fun i => points[i]?) = points.map some := by
  refine List.ext_getElem (by simp) fun k here there => ?_
  simp

/-- Indices that are all inside leave no point out. -/
theorem map_some_filterMap_getElem? {points : List α} {indices : List Nat}
    (inside : indices.Perm (List.range points.length)) :
    (indices.filterMap fun i => points[i]?).map some = indices.map fun i => points[i]? := by
  rw [List.map_filterMap_some_eq_filter_map_isSome, List.filter_eq_self]
  refine List.forall_mem_map.2 fun i there => ?_
  rw [List.getElem?_eq_getElem (List.mem_range.1 (inside.subset there))]
  rfl

variable (order) (permutes : shuffle.Permutes) (seed)

include permutes

/-- **A pass visits every index once.** -/
theorem pass_perm (count : Nat) : (order.pass shuffle seed count).Perm (List.range count) := by
  cases order with
  | up | upDown => exact .refl _
  | down | downUp => exact List.reverse_perm _
  | randomized => exact permutes seed count
  | centerOut =>
      rw [pass, ← outward_eq_zigzag (Nat.lt_succ_self count)]
      exact outward_perm count

/-- **The points are visited by their indices**, and none is left out. -/
theorem forward_eq (points : List α) :
    (order.forward shuffle seed points).map some =
      (order.pass shuffle seed points.length).map fun i => points[i]? := by
  cases order with
  | up | upDown => exact (map_range_getElem? points).symm
  | down | downUp =>
      rw [forward, pass, List.map_reverse, List.map_reverse, map_range_getElem?]
  | randomized => exact map_some_filterMap_getElem? (permutes seed points.length)
  | centerOut =>
      rw [forward, pass, ← outward_eq_zigzag (Nat.lt_succ_self _)]
      exact map_some_filterMap_getElem? (outward_perm points.length)

theorem length_forward (points : List α) :
    (order.forward shuffle seed points).length = points.length := by
  have length := congrArg List.length (order.forward_eq seed permutes points)
  rwa [List.length_map, List.length_map, (order.pass_perm seed permutes _).length_eq,
    List.length_range] at length

/-- The order of a pass does not depend on what is visited. -/
theorem forward_map {β : Type} (f : α → β) (points : List α) :
    order.forward shuffle seed (points.map f) = (order.forward shuffle seed points).map f := by
  refine List.map_injective_iff.2 (Option.some_injective β) ?_
  have mapped := congrArg (List.map (Option.map f)) (order.forward_eq seed permutes points)
  rw [order.forward_eq seed permutes, List.length_map]
  simpa [Function.comp_def] using mapped.symm

end ScanOrder

/-! ## There and back -/

/-- The way back leaves out the turning point, or not. -/
theorem thereAndBack_cons_cons {α : Type} [Spaced α] (first second : α) (rest : List α) :
    ∃ turn : α, thereAndBack (first :: second :: rest) = (first :: second :: rest) ++
      if Spaced.less (Spaced.abs (turn - turn)) (Spaced.abs (second - first)) then
        (first :: second :: rest).reverse.tail
      else (first :: second :: rest).reverse := by
  rw [thereAndBack]
  cases backward : (first :: second :: rest).reverse with
  | nil => exact absurd (List.reverse_eq_nil_iff.1 backward) (List.cons_ne_nil _ _)
  | cons turn back => exact ⟨turn, rfl⟩

theorem thereAndBack_cases {α : Type} [Spaced α] {xs : List α} (two : 2 ≤ xs.length) :
    thereAndBack xs = xs ++ xs.reverse.tail ∨ thereAndBack xs = xs ++ xs.reverse := by
  match xs, two with
  | first :: second :: rest, _ =>
      obtain ⟨turn, is⟩ := thereAndBack_cons_cons first second rest
      rw [is]
      split
      · exact .inl rfl
      · exact .inr rfl

theorem abs_eq (x : Rat) : Spaced.abs x = |x| := by
  show (if x < 0 then -x else x) = |x|
  split
  · rename_i below
    exact (abs_of_neg below).symm
  · rename_i above
    exact (abs_of_nonneg (not_lt.1 above)).symm

/-- Read exactly, a point is nearer to itself than any two points that differ. -/
theorem less_distance_iff (turn first second : Rat) :
    Spaced.less (Spaced.abs (turn - turn)) (Spaced.abs (second - first)) = true ↔
      first ≠ second := by
  rw [abs_eq, abs_eq, sub_self, abs_zero]
  show decide (0 < |second - first|) = true ↔ _
  rw [decide_eq_true_iff, abs_pos, sub_ne_zero]
  exact ne_comm

theorem thereAndBack_of_ne {xs : List Rat} (two : 2 ≤ xs.length) (apart : xs.IsChain (· ≠ ·)) :
    thereAndBack xs = xs ++ xs.reverse.tail := by
  match xs, two with
  | first :: second :: rest, _ =>
      obtain ⟨turn, is⟩ := thereAndBack_cons_cons first second rest
      rw [is, if_pos ((less_distance_iff _ _ _).2 (List.isChain_cons_cons.1 apart).1)]

theorem thereAndBack_of_eq {xs : List Rat} (two : 2 ≤ xs.length) (same : xs.IsChain (· = ·)) :
    thereAndBack xs = xs ++ xs.reverse := by
  match xs, two with
  | first :: second :: rest, _ =>
      obtain ⟨turn, is⟩ := thereAndBack_cons_cons first second rest
      rw [is, if_neg fun less =>
        (less_distance_iff _ _ _).1 less (List.isChain_cons_cons.1 same).1]

/-! ## Points -/

namespace Spacing

/-- The points between two ends, if there are any. -/
def progression? {α : Type} [Spaced α] (spacing : Spacing α) (start stop : α) : Option (List α) :=
  match spacing.pointCount start stop with
  | .error _ | .ok 0 => none
  | .ok (n + 1) => some (spacing.points start stop (n + 1))

theorem progression?_eq_some_iff {α : Type} [Spaced α] {spacing : Spacing α} {start stop : α}
    {points : List α} : spacing.progression? start stop = some points ↔
      ∃ n, spacing.pointCount start stop = .ok (n + 1) ∧
        points = spacing.points start stop (n + 1) := by
  rw [progression?]
  split
  · rename_i refused
    simp [refused]
  · rename_i none'
    simp [none']
  · rename_i n counted
    simp [counted, eq_comm]

theorem length_points {α : Type} [Spaced α] (spacing : Spacing α) (start stop : α) (n : Nat) :
    (spacing.points start stop n).length = n := by
  rw [points]
  split
  · rename_i single
    rw [List.length_singleton, single]
  · rw [List.length_map, List.length_range]

variable {start stop : Rat}

/-- **Read exactly, all steps are equal**, also the one to the end. -/
theorem points_eq (spacing : Spacing Rat) (start stop : Rat) (n : Nat) :
    spacing.points start stop (n + 1) =
      (List.range (n + 1)).map fun i : Nat => start + i * spacing.increment start stop (n + 1) := by
  rw [points]
  split
  · rename_i single
    obtain rfl : n = 0 := by omega
    simp
  · rename_i several
    refine List.map_congr_left fun i there => ?_
    cases spacing with
    | size step => rfl
    | count total =>
        dsimp only
        split
        · rename_i last
          obtain rfl : i = n := by omega
          have steps : (i : Rat) ≠ 0 := Nat.cast_ne_zero.2 (by omega)
          show stop = start + i * ((stop - start) / i)
          rw [mul_div_cancel₀ _ steps, add_sub_cancel]
        · rfl

/-- Either all neighbouring points differ, or all are the same. -/
theorem isChain_points (spacing : Spacing Rat) (start stop : Rat) (n : Nat) :
    (spacing.points start stop (n + 1)).IsChain (· ≠ ·) ∨
      (spacing.points start stop (n + 1)).IsChain (· = ·) := by
  rw [points_eq, List.isChain_map, List.isChain_map, List.isChain_range_succ,
    List.isChain_range_succ]
  by_cases still : spacing.increment start stop (n + 1) = 0
  · refine .inr fun m _ => ?_
    rw [still, mul_zero, mul_zero]
  · refine .inl fun m _ same => still ?_
    have next : ((m.succ : Nat) : Rat) = m + 1 := Nat.cast_succ m
    rw [next] at same
    linarith

end Spacing

/-! ## Scans -/

namespace Scan

variable {s : Scan}

/-- The points of a scan are those between its ends, in the unit of its start. -/
theorem progression?_of_progression {points : List Quantity} (made : s.progression = .ok points) :
    ∃ stop spacing, inUnit s.start.unit s.stop = .ok stop ∧
      spacingIn s.start.unit s.spacing = .ok spacing ∧
      (spacing.progression? s.start.magnitude stop).map s.quantities = some points := by
  obtain ⟨magnitudes, found, made⟩ := bind_eq_ok.1 made
  obtain rfl := Except.ok.inj made
  obtain ⟨stop, converted, found⟩ := bind_eq_ok.1 found
  obtain ⟨spacing, spaced, found⟩ := bind_eq_ok.1 found
  refine ⟨stop, spacing, converted, spaced, ?_⟩
  suffices spacing.progression? s.start.magnitude stop = some magnitudes by
    rw [this, Option.map_some]
  split at found
  · cases found
  · cases found
  · cases found
  · rename_i n some' counted
    obtain rfl := Except.ok.inj found
    cases n with
    | zero => exact absurd rfl some'
    | succ n => exact Spacing.progression?_eq_some_iff.2 ⟨n, counted, rfl⟩

/-- Over doubles, too, every index is visited by the order of its pass; whether the turning point
is visited once or twice depends on how the distances are rounded. -/
theorem values_of_progression {shuffle : Shuffle} (permutes : shuffle.Permutes)
    {points : List Quantity} (made : s.progression = .ok points) :
    ∃ visits : List Quantity,
      visits.map some =
        (s.order.pass shuffle s.seed points.length).map (fun i => points[i]?) ∧
      (s.order.returns = false → s.values shuffle = .ok visits) ∧
      (s.order.returns = true → 2 ≤ points.length →
        s.values shuffle = .ok (visits ++ visits.reverse.tail) ∨
          s.values shuffle = .ok (visits ++ visits.reverse)) := by
  obtain ⟨magnitudes, found, made⟩ := bind_eq_ok.1 made
  obtain rfl := Except.ok.inj made
  have arranged : s.values shuffle =
      .ok (s.quantities (s.order.arrange shuffle s.seed magnitudes)) := by
    rw [values, found]
    rfl
  have mapped : s.order.forward shuffle s.seed (s.quantities magnitudes) =
      s.quantities (s.order.forward shuffle s.seed magnitudes) :=
    s.order.forward_map s.seed permutes _ _
  refine ⟨_, s.order.forward_eq s.seed permutes (s.quantities magnitudes), ?_, ?_⟩
  · intro once
    rw [arranged, ScanOrder.arrange_of_not_returns once, mapped]
  · intro twice two
    have two' : 2 ≤ (s.order.forward shuffle s.seed magnitudes).length := by
      rwa [quantities, List.length_map, ← s.order.length_forward s.seed permutes] at two
    rw [arranged, ScanOrder.arrange_of_returns twice, mapped, quantities, quantities]
    rcases thereAndBack_cases two' with is | is
    · left
      rw [is, List.map_append, List.map_tail, List.map_reverse]
    · right
      rw [is, List.map_append, List.map_reverse]

end Scan

/-- **Every point of a scan is visited the right number of times.**  A pass meets every index
once: upwards, downwards, in the order of a shuffle that permutes, or along the zigzag from the
middle outwards, without its places outside.  Read exactly, an order without return visits the
points of its pass; one with return visits them there and back, the turning point once if
neighbouring points differ, and twice if they are the same.  A scan over doubles, with a seed or
without, whose points come from the same progression, visits them in the same orders. -/
theorem visits_of_progression {shuffle : Shuffle} (permutes : shuffle.Permutes)
    {spacing : Spacing Rat} {start stop : Rat} {points : List Rat}
    (found : spacing.progression? start stop = some points) (order : ScanOrder)
    (seed : Option UInt64) :
    spacing.pointCount start stop = .ok points.length ∧
    (order.pass shuffle seed points.length).Perm (List.range points.length) ∧
    (∀ count, points.length < count →
      ScanOrder.centerOut.pass shuffle seed points.length = zigzagIndices points.length count) ∧
    (∃ forward : List Rat,
      forward.map some = (order.pass shuffle seed points.length).map (fun i => points[i]?) ∧
      (order.returns = false → order.arrange shuffle seed points = forward) ∧
      (order.returns = true → 2 ≤ points.length →
        (points.IsChain (· ≠ ·) ∨ points.IsChain (· = ·)) ∧
        (points.IsChain (· ≠ ·) →
          order.arrange shuffle seed points = forward ++ forward.reverse.tail) ∧
        (points.IsChain (· = ·) →
          order.arrange shuffle seed points = forward ++ forward.reverse))) ∧
    ∀ (s : Scan) (values : List Quantity), s.progression = .ok values →
      (∃ end' spacing', Scan.inUnit s.start.unit s.stop = .ok end' ∧
        Scan.spacingIn s.start.unit s.spacing = .ok spacing' ∧
        (spacing'.progression? s.start.magnitude end').map s.quantities = some values) ∧
      ∃ visits : List Quantity,
        visits.map some =
          (s.order.pass shuffle s.seed values.length).map (fun i => values[i]?) ∧
        (s.order.returns = false → s.values shuffle = .ok visits) ∧
        (s.order.returns = true → 2 ≤ values.length →
          s.values shuffle = .ok (visits ++ visits.reverse.tail) ∨
            s.values shuffle = .ok (visits ++ visits.reverse)) := by
  obtain ⟨n, counted, rfl⟩ := Spacing.progression?_eq_some_iff.1 found
  refine ⟨by rw [counted, Spacing.length_points], order.pass_perm seed permutes _,
    fun count enough => (zigzagIndices_eq enough).symm,
    ⟨_, order.forward_eq seed permutes _, fun once => ScanOrder.arrange_of_not_returns once _,
      fun twice two => ?_⟩,
    fun s values made =>
      ⟨Scan.progression?_of_progression made, Scan.values_of_progression permutes made⟩⟩
  rw [← order.length_forward seed permutes] at two
  rw [ScanOrder.arrange_of_returns twice]
  refine ⟨spacing.isChain_points start stop n, fun apart => ?_, fun same => ?_⟩
  · exact thereAndBack_of_ne two (ScanOrder.isChain_forward twice (fun _ _ => Ne.symm) apart)
  · exact thereAndBack_of_eq two (ScanOrder.isChain_forward twice (fun _ _ => Eq.symm) same)

/-- Three points from 100 to 110, from the end to the start and back. -/
theorem visits_of_progression_downUp :
    Shuffle.still.Permutes ∧
    (Spacing.count 3).progression? 100 110 = some [100, 105, (110 : Rat)] ∧
    [100, 105, (110 : Rat)].IsChain (· ≠ ·) ∧
    ScanOrder.downUp.arrange .still none [100, 105, (110 : Rat)] = [110, 105, 100, 105, 110] := by
  have found : (Spacing.count 3).progression? 100 110 = some [100, 105, (110 : Rat)] := by
    decide +kernel
  have apart : [100, 105, (110 : Rat)].IsChain (· ≠ ·) := by decide +kernel
  have permutes := Shuffle.permutes_still
  obtain ⟨_, _, _, ⟨forward, passed, _, folded⟩, _⟩ :=
    visits_of_progression permutes found .downUp none
  obtain rfl : forward = [110, 105, 100] :=
    List.map_injective_iff.2 (Option.some_injective Rat) passed
  exact ⟨permutes, found, apart, (folded rfl (by decide)).2.1 apart⟩

/-- Four points, from the middle outwards; the last place of the zigzag lies outside. -/
example : (Spacing.size 1).progression? 0 3 = some [0, 1, 2, (3 : Rat)] ∧
    ScanOrder.centerOut.arrange .still none [0, 1, 2, (3 : Rat)] = [2, 3, 1, 0] := by
  decide +kernel

end PulseSequencer
