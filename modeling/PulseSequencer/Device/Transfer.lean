import PulseSequencer.Device.Board

/-
# PulseSequencer.Device.Transfer -- the large memory, a page at a time

Transfers go in chunks of a given size.  A chunk that was written is read back and
compared before the next one follows.
-/

namespace PulseSequencer

set_option autoImplicit false

/-- Cuts bytes into chunks; a size of zero counts as one. -/
def chunks (size : Nat) (bytes : Bytes) : List Bytes :=
  match bytes with
  | [] => []
  | b :: rest => (b :: rest.take (size - 1)) :: chunks size (rest.drop (size - 1))
termination_by bytes.length
decreasing_by simp only [List.length_drop, List.length_cons]; omega

theorem flatten_chunks (size : Nat) (bytes : Bytes) : (chunks size bytes).flatten = bytes := by
  fun_induction chunks size bytes with
  | case1 => rfl
  | case2 b rest ih => simp [ih]

/-- The place where two lists of bytes differ first. -/
def firstDifference? (a b : Bytes) : Option Nat :=
  (a.zip b).findIdx? fun (x, y) => x != y

namespace Board

/-- Checks that a range lies in the large memory. -/
def checkRange (address : UInt64) (length : Nat) : Except HardwareFault Unit :=
  if address.toNat + length ≤ largeMemorySize then .ok ()
  else .error (.memoryRange length address)

def readChunk (b : Board) (address : UInt64) (length : Nat) : Board × Bytes :=
  let asked := b.write .registers (frames [(Register.memoryReadAddress.address, address),
    (Register.memoryReadLength.address, UInt64.ofNat length)])
  asked.read .memory length

/-- Writes a chunk and reads it back. -/
def writeChunk (b : Board) (address : UInt64) (bytes : Bytes) : Board × Except HardwareFault Unit :=
  let b := b.write .registers (frames [(Register.memoryWriteAddress.address, address)])
  let (b, back) := (b.write .memory bytes).readChunk address bytes.length
  match firstDifference? back bytes with
  | some offset => (b, .error (.memoryMismatch (address + UInt64.ofNat offset)))
  | none => (b, .ok ())

/-- Writes chunks one after the other, until one does not read back. -/
def writeChunks (b : Board) (address : UInt64) : List Bytes → Board × Except HardwareFault Unit
  | [] => (b, .ok ())
  | chunk :: rest =>
      match b.writeChunk address chunk with
      | (b, .ok ()) => b.writeChunks (address + UInt64.ofNat chunk.length) rest
      | failed => failed

/-- Writes to the large memory.  Nothing is written if the range is too long. -/
def writeMemory (b : Board) (address : UInt64) (bytes : Bytes) (quantum : Nat) :
    Board × Except HardwareFault Unit :=
  match checkRange address bytes.length with
  | .error fault => (b, .error fault)
  | .ok () => b.writeChunks address (chunks quantum bytes)

/-- Reads `length` bytes in chunks of at most `quantum` ones. -/
def readChunks (b : Board) (address : UInt64) (length quantum : Nat) : Board × Bytes :=
  if length = 0 then (b, [])
  else
    let size := min (max quantum 1) length
    let (b, bytes) := b.readChunk address size
    let (b, rest) := b.readChunks (address + UInt64.ofNat size) (length - size) quantum
    (b, bytes ++ rest)
termination_by length

/-- Reads from the large memory. -/
def readMemory (b : Board) (address : UInt64) (length quantum : Nat) :
    Except HardwareFault (Board × Bytes) := do
  checkRange address length
  return b.readChunks address length quantum

end Board

end PulseSequencer
