import PulseSequencer.Proofs.Program.DataImage
import Mathlib.Data.Nat.Bitwise
import Mathlib.Data.Set.List

/-
# PulseSequencer.Proofs.Program.UpdateFraming -- where an update of several variables ends

In a stream an update of several variables is told from the next one by a single bit: every
address of it but the last has the bit set.  `readUpdate` takes an update off a stream by this
bit.  The bit is decided by the number of names, and there are as many pairs as names and
values, whichever are fewer: so the pairs are an update that ends with them as long as no
name is without a value, and otherwise an update that goes on (`framed_of_multiUpdateCode`).
-/

namespace PulseSequencer

set_option autoImplicit false

namespace Program

/-! ## Addresses with a mark -/

section Flagged

variable {address : Nat} {more : Prop} [Decidable more]

theorem toNat_flagged (small : address < 2 ^ 63) :
    (UInt64.ofNat address ||| if more then moreFollows else 0).toNat =
      (if more then 2 ^ 63 else 0) + address := by
  have whole : (UInt64.ofNat address).toNat = address :=
    UInt64.toNat_ofNat_of_lt' (Nat.lt_trans small (by decide))
  by_cases marked : more
  · rw [if_pos marked, if_pos marked, UInt64.toNat_or, whole, Nat.or_comm]
    exact (Nat.two_pow_add_eq_or_of_lt small 1).symm
  · rw [if_neg marked, if_neg marked, UInt64.or_zero, whole, Nat.zero_add]

/-- Without the mark there is the address. -/
theorem address_of_flagged (small : address < 2 ^ 63) :
    ((UInt64.ofNat address ||| if more then moreFollows else 0) &&& ~~~moreFollows).toNat =
      address := by
  have low : (~~~moreFollows).toNat = 2 ^ 63 - 1 := by decide
  rw [UInt64.toNat_and, low, Nat.and_two_pow_sub_one_eq_mod, toNat_flagged small]
  split <;> omega

theorem flagged_iff (small : address < 2 ^ 63) :
    (UInt64.ofNat address ||| if more then moreFollows else 0) &&& moreFollows ≠ 0 ↔ more := by
  have high : moreFollows.toNat = 2 ^ 63 := by decide
  rw [ne_eq, ← UInt64.toNat_inj, UInt64.toNat_and, high, Nat.and_two_pow, toNat_flagged small]
  by_cases marked : more
  · have bit : (2 ^ 63 + address).testBit 63 = true := by
      rw [Nat.testBit_two_pow_add_eq, Nat.testBit_lt_two_pow small]
      rfl
    rw [if_pos marked, bit]
    simp [marked]
  · rw [if_neg marked, Nat.zero_add, Nat.testBit_lt_two_pow small]
    simp [marked]

end Flagged

/-! ## Reading -/

/-- The words of pairs. -/
def wordsOfPairs (pairs : List (UInt64 × UInt64)) : List UInt64 :=
  pairs.flatMap fun pair => [pair.1, pair.2]

/-- Takes an update off a stream: the pairs up to the first address without the mark.  What
is behind it is left. -/
def readUpdate : List UInt64 → Option (List (UInt64 × UInt64) × List UInt64)
  | address :: word :: rest =>
      if address &&& moreFollows ≠ 0 then
        (readUpdate rest).map fun (pairs, left) => ((address, word) :: pairs, left)
      else some ([(address, word)], rest)
  | _ => none

/-- Marked pairs are a part of the update behind them. -/
theorem readUpdate_marked {pairs : List (UInt64 × UInt64)}
    (marked : ∀ pair ∈ pairs, pair.1 &&& moreFollows ≠ 0) (rest : List UInt64) :
    readUpdate (wordsOfPairs pairs ++ rest) =
      (readUpdate rest).map fun (more, left) => (pairs ++ more, left) := by
  induction pairs with
  | nil =>
      cases read : readUpdate rest <;> simp [wordsOfPairs, read]
  | cons pair others ih =>
      obtain ⟨here, onward⟩ := List.forall_mem_cons.1 marked
      show readUpdate (pair.1 :: pair.2 :: (wordsOfPairs others ++ rest)) = _
      rw [readUpdate, if_pos here, ih onward, Option.map_map]
      rfl

/-- A pair without a mark ends an update. -/
theorem readUpdate_last {pairs : List (UInt64 × UInt64)} {last : UInt64 × UInt64}
    (marked : ∀ pair ∈ pairs, pair.1 &&& moreFollows ≠ 0) (ends : last.1 &&& moreFollows = 0)
    (rest : List UInt64) :
    readUpdate (wordsOfPairs (pairs ++ [last]) ++ rest) = some (pairs ++ [last], rest) := by
  have split : wordsOfPairs (pairs ++ [last]) ++ rest =
      wordsOfPairs pairs ++ (last.1 :: last.2 :: rest) := by
    simp [wordsOfPairs]
  rw [split, readUpdate_marked marked, readUpdate, if_neg (not_not.2 ends)]
  rfl

section Marks

variable {pairs : List (UInt64 × UInt64)} {total : Nat}
  (marks : ∀ i pair, pairs[i]? = some pair → (pair.1 &&& moreFollows ≠ 0 ↔ i + 1 < total))
include marks

/-- Marks that are set up to the last pair make an update of the pairs. -/
theorem readUpdate_of_all (all : pairs.length = total) (some' : pairs ≠ []) (rest : List UInt64) :
    readUpdate (wordsOfPairs pairs ++ rest) = some (pairs, rest) := by
  obtain ⟨before, last, rfl⟩ : ∃ before last, pairs = before ++ [last] := by
    rcases List.eq_nil_or_concat pairs with rfl | ⟨before, last, is⟩
    · exact absurd rfl some'
    · exact ⟨before, last, is.trans List.concat_eq_append⟩
  rw [List.length_append, List.length_singleton] at all
  refine readUpdate_last (fun pair there => ?_) ?_ rest
  · obtain ⟨i, found⟩ := List.mem_iff_getElem?.1 there
    obtain ⟨inside, _⟩ := List.getElem?_eq_some_iff.1 found
    exact (marks i pair (by rw [List.getElem?_append_left inside, found])).2 (by omega)
  · have closed := (marks before.length last List.getElem?_concat_length).not
    exact not_not.1 (closed.2 (by omega))

/-- Marks that are set on more pairs than there are do not end. -/
theorem readUpdate_of_few (few : pairs.length < total) (rest : List UInt64) :
    readUpdate (wordsOfPairs pairs ++ rest) =
      (readUpdate rest).map fun (more, left) => (pairs ++ more, left) := by
  refine readUpdate_marked (fun pair there => ?_) rest
  obtain ⟨i, found⟩ := List.mem_iff_getElem?.1 there
  obtain ⟨inside, _⟩ := List.getElem?_eq_some_iff.1 found
  exact (marks i pair found).2 (by omega)

end Marks

/-! ## Updates -/

section Update

variable {p : Program} {names : List String} {values : List Quantity} {words : List UInt64}

theorem updatePair_eq_ok {total index : Nat} {name : String} {value : Quantity}
    {pair : List UInt64} (made : p.updatePair total index name value = .ok pair) :
    ∃ v word, p.find? name = some v ∧ v.encodeValue value = .ok word ∧
      pair = [UInt64.ofNat v.address ||| if index + 1 < total then moreFollows else 0, word] := by
  obtain ⟨v, found, made⟩ := bind_eq_ok.1 made
  obtain ⟨word, encoded, made⟩ := bind_eq_ok.1 made
  obtain rfl := Except.ok.inj made
  refine ⟨v, word, ?_, ok_of_mapError encoded, rfl⟩
  rw [findVariable] at found
  split at found
  · rename_i known
    rw [known, Except.ok.inj found]
  · cases found

/-- The pairs of an update one by one. -/
theorem pairs_of_multiUpdateCode (made : p.multiUpdateCode names values = .ok words) :
    ∃ pairs, words = wordsOfPairs pairs ∧ pairs.length = min names.length values.length ∧
      ∀ i pair, pairs[i]? = some pair → ∃ name value v, names[i]? = some name ∧
        values[i]? = some value ∧ p.find? name = some v ∧ v.encodeValue value = .ok pair.2 ∧
        pair.1 = UInt64.ofNat v.address ||| if i + 1 < names.length then moreFollows else 0 := by
  obtain ⟨lists, mapped, made⟩ := bind_eq_ok.1 made
  obtain rfl := Except.ok.inj made
  -- each list is a pair
  have each : ∀ i list, lists[i]? = some list → ∃ name value v word, names[i]? = some name ∧
      values[i]? = some value ∧ p.find? name = some v ∧ v.encodeValue value = .ok word ∧
      list = [UInt64.ofNat v.address ||| if i + 1 < names.length then moreFollows else 0,
        word] := by
    intro i list found
    obtain ⟨⟨⟨name, value⟩, index⟩, there, pair⟩ := getElem?_of_result mapped found
    obtain ⟨v, word, known, encoded, rfl⟩ := updatePair_eq_ok pair
    rw [List.getElem?_zipIdx, Option.map_eq_some_iff] at there
    obtain ⟨_, there, same⟩ := there
    obtain ⟨rfl, rfl⟩ := Prod.mk.inj same
    obtain ⟨named, valued⟩ := List.getElem?_zip_eq_some.1 there
    exact ⟨name, value, v, word, named, valued, known, encoded, by rw [Nat.zero_add]⟩
  obtain ⟨pairs, rfl⟩ : ∃ pairs : List (UInt64 × UInt64),
      pairs.map (fun pair => [pair.1, pair.2]) = lists := by
    refine (Set.range_list_map _).ge fun list there => ?_
    obtain ⟨i, found⟩ := List.mem_iff_getElem?.1 there
    obtain ⟨_, _, v, word, _, _, _, _, rfl⟩ := each i list found
    exact ⟨(_, word), rfl⟩
  refine ⟨pairs, rfl, ?_, fun i pair found => ?_⟩
  · have length := length_of_mapM mapped
    rwa [List.length_map, List.length_zipIdx, List.length_zip] at length
  · obtain ⟨name, value, v, word, named, valued, known, encoded, same⟩ :=
      each i _ (by rw [List.getElem?_map, found]; rfl)
    obtain ⟨address, same⟩ := List.cons.inj same
    rw [← (List.cons.inj same).1] at encoded
    exact ⟨name, value, v, named, valued, known, encoded, address⟩

/-- Addresses lie within the data image. -/
theorem Coherent.address_lt (coherent : p.Coherent) {name : String} {v : Variable}
    (found : p.find? name = some v) : v.address < 8 * p.data.length := by
  obtain ⟨place, _⟩ := coherent.getElem?_of_find? found
  obtain ⟨inside, _⟩ := List.getElem?_eq_some_iff.1 (coherent.getElem?_data_of_find? found)
  rw [(coherent.placed v.slot _ place).address_eq]
  omega

end Update

/-- **An update ends with its pairs unless a name is without a value.**  Pair `i` has the
address of the `i`-th name, with a mark if that is not the last name, and the word of the
`i`-th value.  If there is a value for every name, a reader that goes by the marks takes these
pairs off a stream and no more; otherwise it takes them for a part of the update behind them.

The data image is one that can be addressed by 63 bits, as is any that fits a memory. -/
theorem framed_of_multiUpdateCode {limits : MemoryLimits} {operations : List Operation}
    {names : List String} {values : List Quantity} {words : List UInt64}
    (small : 8 * (operations.foldl perform (withLimits limits)).data.length ≤ 2 ^ 63)
    (made : (operations.foldl perform (withLimits limits)).multiUpdateCode names values =
      .ok words) :
    let p := operations.foldl perform (withLimits limits)
    ∃ pairs, words = wordsOfPairs pairs ∧ pairs.length = min names.length values.length ∧
      (∀ i pair, pairs[i]? = some pair → ∃ name value v, names[i]? = some name ∧
        values[i]? = some value ∧ p.find? name = some v ∧
        (pair.1 &&& ~~~moreFollows).toNat = v.address ∧ v.encodeValue value = .ok pair.2 ∧
        (pair.1 &&& moreFollows ≠ 0 ↔ i + 1 < names.length)) ∧
      (names.length ≤ values.length → words ≠ [] →
        ∀ rest, readUpdate (words ++ rest) = some (pairs, rest)) ∧
      (values.length < names.length → ∀ rest, readUpdate (words ++ rest) =
        (readUpdate rest).map fun (more, left) => (pairs ++ more, left)) := by
  intro p
  have coherent : p.Coherent := coherent_foldl_perform (coherent_withLimits limits) operations
  obtain ⟨pairs, rfl, length, each⟩ := pairs_of_multiUpdateCode made
  have flags : ∀ i pair, pairs[i]? = some pair →
      (pair.1 &&& moreFollows ≠ 0 ↔ i + 1 < names.length) := by
    intro i pair found
    obtain ⟨_, _, v, _, _, known, _, address⟩ := each i pair found
    rw [address]
    exact flagged_iff (Nat.lt_of_lt_of_le (coherent.address_lt known) small)
  refine ⟨pairs, rfl, length, fun i pair found => ?_, fun enough some' => ?_, fun few => ?_⟩
  · obtain ⟨name, value, v, named, valued, known, encoded, address⟩ := each i pair found
    refine ⟨name, value, v, named, valued, known, ?_, encoded, flags i pair found⟩
    rw [address]
    exact address_of_flagged (Nat.lt_of_lt_of_le (coherent.address_lt known) small)
  · refine readUpdate_of_all flags (length.trans (Nat.min_eq_left enough)) ?_
    rintro rfl
    exact some' rfl
  · exact readUpdate_of_few flags (by omega)

/-- Loads a program with two variables. -/
def loadGains : Operation := .load "main.pp" "var a 1\nvar b 2\n" Library.empty

/-- A value too many is not sent. -/
theorem framed_of_multiUpdateCode_gains :
    let p := [loadGains].foldl perform (withLimits {})
    8 * p.data.length ≤ 2 ^ 63 ∧
    p.multiUpdateCode ["a", "b"] [.plain 5, .plain 7, .plain 9] = .ok [moreFollows, 5, 8, 7] ∧
    ∃ pairs, [moreFollows, 5, 8, 7] = wordsOfPairs pairs ∧ pairs.length = 2 ∧
      ∀ rest, readUpdate ([moreFollows, 5, 8, 7] ++ rest) = some (pairs, rest) := by
  intro p
  have small : 8 * p.data.length ≤ 2 ^ 63 := by decide +kernel
  have sent : (p.multiUpdateCode ["a", "b"] [.plain 5, .plain 7, .plain 9]).toOption =
      some [moreFollows, 5, 8, 7] := by decide +kernel
  have made := ok_of_toOption sent
  obtain ⟨pairs, words, length, _, reads, _⟩ := framed_of_multiUpdateCode small made
  exact ⟨small, made, pairs, words, length, reads (by decide) (List.cons_ne_nil _ _)⟩

/-- With a value too few the last address is marked, and the update does not end. -/
theorem unended_of_missing_value :
    ([loadGains].foldl perform (withLimits {})).multiUpdateCode ["a", "b"] [.plain 5] =
        .ok [moreFollows, 5] ∧ readUpdate [moreFollows, 5] = none :=
  ⟨ok_of_toOption (by decide +kernel), rfl⟩

end Program

end PulseSequencer
