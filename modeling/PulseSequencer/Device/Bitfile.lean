import PulseSequencer.Bytes
import PulseSequencer.Device.Error
import PulseSequencer.Number.Radix
import PulseSequencer.Text.Utf8

/-
# PulseSequencer.Device.Bitfile -- firmware images

An image begins with fixed bytes, four text fields and the length of the bitstream.
Every field has a key, a length and its bytes, which may end with a zero byte.  Images are
told apart by their digests in reports to the user; the header is read with any of them, and
the MD5 digest is the one that is shown.
-/

namespace PulseSequencer.Digest

set_option autoImplicit false

/-! ## Digests -/

/-- The four words that are carried from block to block. -/
structure State where
  a : UInt32 := 0x67452301
  b : UInt32 := 0xefcdab89
  c : UInt32 := 0x98badcfe
  d : UInt32 := 0x10325476
deriving Repr, DecidableEq

/-- The additive constants of the 64 steps, from the sines of 1 to 64. -/
def sines : List UInt32 :=
  [0xd76aa478, 0xe8c7b756, 0x242070db, 0xc1bdceee, 0xf57c0faf, 0x4787c62a,
  0xa8304613, 0xfd469501, 0x698098d8, 0x8b44f7af, 0xffff5bb1, 0x895cd7be,
  0x6b901122, 0xfd987193, 0xa679438e, 0x49b40821, 0xf61e2562, 0xc040b340,
  0x265e5a51, 0xe9b6c7aa, 0xd62f105d, 0x02441453, 0xd8a1e681, 0xe7d3fbc8,
  0x21e1cde6, 0xc33707d6, 0xf4d50d87, 0x455a14ed, 0xa9e3e905, 0xfcefa3f8,
  0x676f02d9, 0x8d2a4c8a, 0xfffa3942, 0x8771f681, 0x6d9d6122, 0xfde5380c,
  0xa4beea44, 0x4bdecfa9, 0xf6bb4b60, 0xbebfbc70, 0x289b7ec6, 0xeaa127fa,
  0xd4ef3085, 0x04881d05, 0xd9d4d039, 0xe6db99e5, 0x1fa27cf8, 0xc4ac5665,
  0xf4292244, 0x432aff97, 0xab9423a7, 0xfc93a039, 0x655b59c3, 0x8f0ccc92,
  0xffeff47d, 0x85845dd1, 0x6fa87e4f, 0xfe2ce6e0, 0xa3014314, 0x4e0811a1,
  0xf7537e82, 0xbd3af235, 0x2ad7d2bb, 0xeb86d391]

/-- The rotations of the steps of a round, which repeat after four. -/
def rotations : List (List UInt32) :=
  [[7, 12, 17, 22], [5, 9, 14, 20], [4, 11, 16, 23], [6, 10, 15, 21]]

/-- The round function of a step. -/
def mix (round : Nat) (b c d : UInt32) : UInt32 :=
  match round with
  | 0 => (b &&& c) ||| (~~~b &&& d)
  | 1 => (d &&& b) ||| (~~~d &&& c)
  | 2 => b ^^^ c ^^^ d
  | _ => c ^^^ (b ||| ~~~d)

/-- The word of the block that a step takes. -/
def wordIndex (round step : Nat) : Nat :=
  match round with
  | 0 => step
  | 1 => (5 * step + 1) % 16
  | 2 => (3 * step + 5) % 16
  | _ => 7 * step % 16

def rotateLeft (x n : UInt32) : UInt32 := x <<< n ||| x >>> (32 - n)

def step (block : List UInt32) (s : State) (i : Nat) : State :=
  let round := i / 16
  let sum := s.a + mix round s.b s.c s.d + sines.getD i 0 + block.getD (wordIndex round i) 0
  let turn := (rotations.getD round []).getD (i % 4) 0
  { a := s.d, b := s.b + rotateLeft sum turn, c := s.b, d := s.c }

/-- Takes a block of 16 words. -/
def compress (s : State) (block : List UInt32) : State :=
  let t := (List.range 64).foldl (step block) s
  { a := s.a + t.a, b := s.b + t.b, c := s.c + t.c, d := s.d + t.d }

/-- The words of 32 bits of a message, least byte first. -/
def words : Bytes → List UInt32
  | a :: b :: c :: d :: rest => UInt32.ofNat (ofLittleEndian [a, b, c, d]) :: words rest
  | _ => []

/-- Fills a message up to whole blocks; its length in bits stands at the end. -/
def pad (message : Bytes) : Bytes :=
  let zeros := (119 - message.length % 64) % 64
  message ++ [0x80] ++ List.replicate zeros 0 ++ littleEndian 8 (8 * message.length)

/-- Takes blocks of 16 words as long as there are any. -/
def compressAll (s : State) (ws : List UInt32) : State :=
  match ws with
  | [] => s
  | w :: rest => compressAll (compress s (w :: rest.take 15)) (rest.drop 15)
termination_by ws.length
decreasing_by simp only [List.length_drop, List.length_cons]; omega

def md5 (message : Bytes) : Bytes :=
  let s := compressAll {} (words (pad message))
  [s.a, s.b, s.c, s.d].flatMap fun w => littleEndian 4 w.toNat

end PulseSequencer.Digest

namespace PulseSequencer

set_option autoImplicit false

/-! ## The header -/

structure BitfileInfo where
  design : String
  part : String
  date : String
  time : String
  bitstreamLength : Nat
  /-- The digest of the whole image, in hexadecimal. -/
  md5 : String
deriving Repr, DecidableEq

namespace Bitfile

/-- The bytes that every image begins with. -/
def magic : Bytes :=
  [0x00, 0x09, 0x0f, 0xf0, 0x0f, 0xf0, 0x0f, 0xf0, 0x0f, 0xf0, 0x00, 0x00, 0x01]

/-- A reader tells what it read and the bytes behind that. -/
abbrev Reader (α : Type) := Bytes → Except BitfileFault (α × Bytes)

def take (length : Nat) : Reader Bytes := fun bytes =>
  if bytes.length < length then .error .truncatedHeader
  else .ok (bytes.take length, bytes.drop length)

/-- Reads the byte of a key. -/
def expectKey (key : Char) : Reader Unit := fun bytes => do
  let (byte, rest) ← take 1 bytes
  if byte = [UInt8.ofNat key.toNat] then return ((), rest) else throw (.expectedField key)

/-- Reads a number, most significant byte first. -/
def number (size : Nat) : Reader Nat := fun bytes => do
  let (digits, rest) ← take size bytes
  return (ofBigEndian digits, rest)

/-- The text of a field; one zero byte at its end is no part of it. -/
def fieldText (bytes : Bytes) : String :=
  let bytes := if bytes.getLast? = some 0 then bytes.dropLast else bytes
  String.ofList (Text.decodeUtf8 bytes)

def field (key : Char) : Reader String := fun bytes => do
  let ((), rest) ← expectKey key bytes
  let (length, rest) ← number 2 rest
  let (text, rest) ← take length rest
  return (fieldText text, rest)

def hexOfBytes (bytes : Bytes) : String :=
  String.ofList (bytes.flatMap fun b => hexDigits 2 b.toNat)

def parse (image : Bytes) (digest : Bytes → Bytes := Digest.md5) :
    Except BitfileFault BitfileInfo := do
  let (start, rest) ← take magic.length image
  if start ≠ magic then throw .unknownHeader
  let (design, rest) ← field 'a' rest
  let (part, rest) ← field 'b' rest
  let (date, rest) ← field 'c' rest
  let (time, rest) ← field 'd' rest
  let ((), rest) ← expectKey 'e' rest
  let (bitstreamLength, rest) ← number 4 rest
  if rest.length < bitstreamLength then throw .truncatedBitstream
  return { design, part, date, time, bitstreamLength, md5 := hexOfBytes (digest image) }

end Bitfile

end PulseSequencer
