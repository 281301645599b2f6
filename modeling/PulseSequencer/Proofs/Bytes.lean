import PulseSequencer.Bytes
import Mathlib.Tactic.ByContra
import Mathlib.Tactic.Ring

/-
# PulseSequencer.Proofs.Bytes -- numbers and words in a stream

Bytes are the digits of their number, least first (`littleEndian_ofLittleEndian`) or most
significant first (`ofBigEndian_eq_iff`).  The words of two pieces are those of the first, and
those that its rest begins (`splitWords_append`).  The bytes of words are those words
(`splitWords_bytesOfWords`).
-/

namespace PulseSequencer

set_option autoImplicit false

/-! ## Numbers and their bytes -/

theorem ofLittleEndian_append (a b : Bytes) :
    ofLittleEndian (a ++ b) = ofLittleEndian a + 256 ^ a.length * ofLittleEndian b := by
  induction a with
  | nil => simp [ofLittleEndian]
  | cons x rest ih =>
      simp only [List.cons_append, ofLittleEndian, ih, List.length_cons, Nat.pow_succ]
      ring

theorem ofLittleEndian_lt (bs : Bytes) : ofLittleEndian bs < 256 ^ bs.length := by
  induction bs with
  | nil => simp [ofLittleEndian]
  | cons x rest ih =>
      have := x.toNat_lt
      simp only [ofLittleEndian, List.length_cons, Nat.pow_succ]
      omega

/-- Bytes are the digits of their number. -/
theorem littleEndian_ofLittleEndian (bs : Bytes) :
    littleEndian bs.length (ofLittleEndian bs) = bs := by
  induction bs with
  | nil => rfl
  | cons b rest ih =>
      have small := b.toNat_lt
      have low : UInt8.ofNat (b.toNat + 256 * ofLittleEndian rest) = b := by
        apply UInt8.toNat_inj.1
        rw [UInt8.toNat_ofNat']
        omega
      have high : (b.toNat + 256 * ofLittleEndian rest) / 256 = ofLittleEndian rest := by omega
      rw [List.length_cons, littleEndian, ofLittleEndian, low, high, ih]

/-- The `count` low bytes of a number, most significant first. -/
def bigEndian (count n : Nat) : Bytes := (littleEndian count n).reverse

@[simp] theorem length_bigEndian (count n : Nat) : (bigEndian count n).length = count := by
  rw [bigEndian, List.length_reverse, length_littleEndian]

theorem ofBigEndian_eq (bs : Bytes) : ofBigEndian bs = ofLittleEndian bs.reverse := by
  rw [ofBigEndian, ← List.foldr_reverse]
  induction bs.reverse with
  | nil => rfl
  | cons b rest ih => rw [List.foldr_cons, ih, ofLittleEndian, Nat.add_comm]

/-- **Bytes stand for a number exactly if they are its bytes** and it fits them. -/
theorem ofBigEndian_eq_iff {bs : Bytes} {n : Nat} :
    ofBigEndian bs = n ↔ bs = bigEndian bs.length n ∧ n < 256 ^ bs.length := by
  rw [ofBigEndian_eq, bigEndian, ← List.length_reverse]
  constructor
  · rintro rfl
    rw [littleEndian_ofLittleEndian, List.reverse_reverse]
    exact ⟨rfl, ofLittleEndian_lt _⟩
  · rintro ⟨same, fits⟩
    have size : pow2 (8 * bs.reverse.length) = 256 ^ bs.reverse.length := Nat.pow_mul 2 8 _
    rw [same, List.reverse_reverse, ofLittleEndian_littleEndian, size, Nat.mod_eq_of_lt fits]

/-! ## Words of a stream -/

theorem wordsOfBytes_append (a b : Bytes) (whole : a.length % 8 = 0) :
    wordsOfBytes (a ++ b) = wordsOfBytes a ++ wordsOfBytes b := by
  induction h : a.length using Nat.strongRecOn generalizing a with
  | _ n ih =>
      cases a with
      | nil => simp [wordsOfBytes]
      | cons x rest =>
          simp only [List.length_cons] at whole h
          have long : 7 ≤ rest.length := by omega
          have shorter : (rest.drop 7).length < n := by simp only [List.length_drop]; omega
          have wholeRest : (rest.drop 7).length % 8 = 0 := by simp only [List.length_drop]; omega
          rw [List.cons_append, wordsOfBytes, wordsOfBytes, List.take_append_of_le_length long,
            List.drop_append_of_le_length long, ih _ shorter _ wholeRest rfl, List.cons_append]

/-- **Words do not depend on where the stream is cut**: the words of two pieces are
those of the first, and those that its rest begins. -/
theorem splitWords_append (a b : Bytes) :
    splitWords (a ++ b) =
      ((splitWords a).1 ++ (splitWords ((splitWords a).2 ++ b)).1,
        (splitWords ((splitWords a).2 ++ b)).2) := by
  have size : (a ++ b).length / 8 * 8 =
      a.length / 8 * 8 + (a.drop (a.length / 8 * 8) ++ b).length / 8 * 8 := by
    simp only [List.length_append, List.length_drop]
    omega
  have le : a.length / 8 * 8 ≤ a.length := by omega
  have whole : (a.take (a.length / 8 * 8)).length % 8 = 0 := by
    simp only [List.length_take]
    omega
  simp only [splitWords, size, List.take_add, ← List.drop_drop, List.take_append_of_le_length le,
    List.drop_append_of_le_length le, wordsOfBytes_append _ _ whole]

theorem splitWords_of_short {bs : Bytes} (short : bs.length < 8) : splitWords bs = ([], bs) := by
  have none : bs.length / 8 * 8 = 0 := by omega
  simp [splitWords, none, wordsOfBytes]

/-- A stream of eight bytes is one word. -/
theorem splitWords_of_length_eq {bs : Bytes} (eight : bs.length = 8) :
    splitWords bs = ([wordOfBytes bs], []) := by
  cases bs with
  | nil => simp at eight
  | cons b rest =>
      have seven : rest.length = 7 := by simpa using eight
      simp [splitWords, seven, wordsOfBytes, List.take_of_length_le, List.drop_of_length_le]

theorem splitWords_fst_eq_nil_iff (bs : Bytes) : (splitWords bs).1 = [] ↔ bs.length < 8 := by
  constructor
  · intro none
    by_contra long
    cases bs with
    | nil => simp at long
    | cons b rest =>
        have some : (b :: rest).length / 8 * 8 = (b :: rest).length / 8 * 8 - 1 + 1 := by omega
        rw [splitWords, some, List.take_succ_cons, wordsOfBytes] at none
        exact absurd none (List.cons_ne_nil _ _)
  · intro short
    rw [splitWords_of_short short]

@[simp] theorem length_bytesOfWord (w : UInt64) : (bytesOfWord w).length = 8 :=
  length_littleEndian 8 _

theorem wordOfBytes_bytesOfWord (w : UInt64) : wordOfBytes (bytesOfWord w) = w := by
  have read : ofLittleEndian (bytesOfWord w) = w.toNat := by
    rw [bytesOfWord, ofLittleEndian_littleEndian]
    exact Nat.mod_eq_of_lt w.toNat_lt
  rw [wordOfBytes, read, UInt64.ofNat_toNat]

theorem bytesOfWords_append (a b : List UInt64) :
    bytesOfWords (a ++ b) = bytesOfWords a ++ bytesOfWords b :=
  List.flatMap_append

theorem length_bytesOfWords (ws : List UInt64) : (bytesOfWords ws).length = 8 * ws.length := by
  induction ws with
  | nil => rfl
  | cons w rest ih =>
      rw [bytesOfWords, List.flatMap_cons, List.length_append, length_bytesOfWord, ← bytesOfWords,
        ih, List.length_cons]
      omega

/-- The bytes of words are those words, whatever follows. -/
theorem splitWords_bytesOfWords_append (ws : List UInt64) (rest : Bytes) :
    splitWords (bytesOfWords ws ++ rest) = (ws ++ (splitWords rest).1, (splitWords rest).2) := by
  induction ws with
  | nil => rfl
  | cons w others ih =>
      have cut : bytesOfWords (w :: others) ++ rest =
          bytesOfWord w ++ (bytesOfWords others ++ rest) := by
        rw [bytesOfWords, List.flatMap_cons, ← bytesOfWords, List.append_assoc]
      rw [cut, splitWords_append, splitWords_of_length_eq (length_bytesOfWord w), List.nil_append,
        ih, wordOfBytes_bytesOfWord]
      rfl

theorem splitWords_bytesOfWords (ws : List UInt64) : splitWords (bytesOfWords ws) = (ws, []) := by
  have none : splitWords [] = ([], []) := splitWords_of_short (by decide)
  have split := splitWords_bytesOfWords_append ws []
  rwa [none, List.append_nil, List.append_nil] at split

/-! ## Fields and bytes of a word -/

/-- A field above a lower one. -/
theorem toNat_field (bits : Nat) {high low : UInt64} (room : bits < 64)
    (small : high.toNat * 2 ^ bits < 2 ^ 64) (below : low.toNat < 2 ^ bits) :
    (high <<< UInt64.ofNat bits ||| low).toNat = high.toNat * 2 ^ bits + low.toNat := by
  have shift : (UInt64.ofNat bits).toNat % 64 = bits := by
    rw [UInt64.toNat_ofNat', Nat.mod_eq_of_lt (b := 2 ^ 64) (by omega), Nat.mod_eq_of_lt room]
  rw [UInt64.toNat_or, UInt64.toNat_shiftLeft, shift, Nat.shiftLeft_eq, Nat.mod_eq_of_lt small,
    ← Nat.shiftLeft_eq, ← Nat.shiftLeft_add_eq_or_of_lt below]

/-- The bytes of a number are its digits to the base 256. -/
theorem getElem?_littleEndian {count k : Nat} (n : Nat) (inside : k < count) :
    (littleEndian count n)[k]? = some (UInt8.ofNat (n / 256 ^ k)) := by
  induction count generalizing n k with
  | zero => exact absurd inside (Nat.not_lt_zero k)
  | succ count ih =>
      cases k with
      | zero => simp [littleEndian]
      | succ k =>
          rw [littleEndian, List.getElem?_cons_succ, ih (n / 256) (Nat.lt_of_succ_lt_succ inside),
            Nat.div_div_eq_div_mul, Nat.pow_succ, Nat.mul_comm]

end PulseSequencer
