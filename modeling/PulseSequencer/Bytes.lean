import PulseSequencer.Number.Binary

/-
# PulseSequencer.Bytes -- little-endian words

Memory images and streams are lists of bytes; words stand in them with the least
byte first.
-/

namespace PulseSequencer

set_option autoImplicit false

abbrev Bytes := List UInt8

/-- The `count` low bytes of a number, least first. -/
def littleEndian : Nat → Nat → Bytes
  | 0, _ => []
  | count + 1, n => UInt8.ofNat n :: littleEndian count (n / 256)

/-- The number that bytes stand for, least first. -/
def ofLittleEndian : Bytes → Nat
  | [] => 0
  | b :: rest => b.toNat + 256 * ofLittleEndian rest

/-- The number that bytes stand for, most significant first. -/
def ofBigEndian (bs : Bytes) : Nat := bs.foldl (fun n b => 256 * n + b.toNat) 0

@[simp] theorem length_littleEndian (count n : Nat) : (littleEndian count n).length = count := by
  induction count generalizing n with
  | zero => rfl
  | succ k ih => simp [littleEndian, ih]

theorem ofLittleEndian_littleEndian (count n : Nat) :
    ofLittleEndian (littleEndian count n) = n % pow2 (8 * count) := by
  induction count generalizing n with
  | zero => exact (Nat.mod_one n).symm
  | succ k ih =>
      have h : pow2 (8 * (k + 1)) = 256 * pow2 (8 * k) := by
        simp only [Nat.mul_succ, pow2_succ]
        omega
      rw [h, Nat.mod_mul, littleEndian, ofLittleEndian, ih, UInt8.toNat_ofNat']

def bytesOfWord (w : UInt64) : Bytes := littleEndian 8 w.toNat

/-- The bytes of all words, one after the other. -/
def bytesOfWords (ws : List UInt64) : Bytes := ws.flatMap bytesOfWord

def wordOfBytes (bs : Bytes) : UInt64 := UInt64.ofNat (ofLittleEndian bs)

/-- Groups of eight bytes as words; the last one may be short. -/
def wordsOfBytes (bs : Bytes) : List UInt64 :=
  match bs with
  | [] => []
  | b :: rest => wordOfBytes (b :: rest.take 7) :: wordsOfBytes (rest.drop 7)
termination_by bs.length
decreasing_by simp only [List.length_drop, List.length_cons]; omega

/-- The words that are complete, and the bytes behind them. -/
def splitWords (bs : Bytes) : List UInt64 × Bytes :=
  let size := bs.length / 8 * 8
  (wordsOfBytes (bs.take size), bs.drop size)

theorem length_splitWords_snd (bs : Bytes) : (splitWords bs).2.length < 8 := by
  simp only [splitWords, List.length_drop]
  omega

end PulseSequencer
