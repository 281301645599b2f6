import PulseSequencer.Bytes

/-
# PulseSequencer.Device.Memory -- the registers and memories of the board

Writes to registers travel in frames of an address and a value.  The registers
from `dataBase` on are the words of the data memory.  The small memories are lists of
bytes that grow as far as they are written.  The large one keeps the blocks that were
written, newest first, and reads as zero where there is none.

Main statements: `parseFrames_frames` (what is sent is what arrives) and
`LargeMemory.byteAt_write` (a block is read back, and other bytes stay as they were).
-/

namespace PulseSequencer

set_option autoImplicit false

/-! ## Registers -/

/-- A write to a register: its address and the value. -/
abbrev RegisterWrite := UInt16 × UInt64

inductive Register where
  | codeAddress
  | dataAddress
  | memoryWriteAddress
  | memoryReadAddress
  | memoryReadLength
deriving Repr, DecidableEq

namespace Register

def address : Register → UInt16
  | codeAddress => 1
  | dataAddress => 2
  | memoryWriteAddress => 3
  | memoryReadAddress => 4
  | memoryReadLength => 5

def all : List Register :=
  [codeAddress, dataAddress, memoryWriteAddress, memoryReadAddress, memoryReadLength]

def ofAddress? (address : UInt16) : Option Register := all.find? fun r => r.address == address

/-- The address of the first word of the data memory. -/
def dataBase : UInt16 := 0x1000

end Register

def frame (write : RegisterWrite) : Bytes :=
  littleEndian 2 write.1.toNat ++ littleEndian 8 write.2.toNat

/-- The frames of all writes, one after the other. -/
def frames (writes : List RegisterWrite) : Bytes := writes.flatMap frame

/-- The writes of all complete frames. -/
def parseFrames : Bytes → List RegisterWrite
  | a₀ :: a₁ :: v₀ :: v₁ :: v₂ :: v₃ :: v₄ :: v₅ :: v₆ :: v₇ :: rest =>
      (UInt16.ofNat (ofLittleEndian [a₀, a₁]), wordOfBytes [v₀, v₁, v₂, v₃, v₄, v₅, v₆, v₇]) ::
        parseFrames rest
  | _ => []

theorem parseFrames_frame_append (write : RegisterWrite) (rest : Bytes) :
    parseFrames (frame write ++ rest) = write :: parseFrames rest := by
  obtain ⟨address, value⟩ := write
  have ha : ofLittleEndian (littleEndian 2 address.toNat) = address.toNat := by
    rw [ofLittleEndian_littleEndian]
    exact Nat.mod_eq_of_lt address.toNat_lt
  have hv : ofLittleEndian (littleEndian 8 value.toNat) = value.toNat := by
    rw [ofLittleEndian_littleEndian]
    exact Nat.mod_eq_of_lt value.toNat_lt
  simp only [littleEndian] at ha hv
  simp only [frame, littleEndian, List.cons_append, List.nil_append, parseFrames, wordOfBytes,
    ha, hv, UInt16.ofNat_toNat, UInt64.ofNat_toNat]

theorem parseFrames_frames (writes : List RegisterWrite) :
    parseFrames (frames writes) = writes := by
  induction writes with
  | nil => rfl
  | cons write rest ih =>
      simp only [frames, List.flatMap_cons] at ih ⊢
      rw [parseFrames_frame_append, ih]

/-! ## Memories -/

/-- Writes bytes into a memory that grows with zeros if it has to. -/
def storeAt (memory : Bytes) (start : Nat) (bytes : Bytes) : Bytes :=
  let filled := memory ++ List.replicate (start + bytes.length - memory.length) 0
  filled.take start ++ bytes ++ filled.drop (start + bytes.length)

theorem length_storeAt (memory : Bytes) (start : Nat) (bytes : Bytes) :
    (storeAt memory start bytes).length = max memory.length (start + bytes.length) := by
  simp only [storeAt, List.length_append, List.length_take, List.length_drop,
    List.length_replicate]
  omega

structure MemoryBlock where
  start : Nat
  bytes : Array UInt8
deriving Repr, DecidableEq

namespace MemoryBlock

/-- The byte of a block at an address, if the block reaches it. -/
def byteAt? (b : MemoryBlock) (address : Nat) : Option UInt8 :=
  if address < b.start then none else b.bytes[address - b.start]?

end MemoryBlock

structure LargeMemory where
  /-- Newest first. -/
  blocks : List MemoryBlock := []
deriving Repr, DecidableEq

namespace LargeMemory

/-- The newest byte at an address. -/
def byteAt (m : LargeMemory) (address : Nat) : UInt8 :=
  (m.blocks.findSome? fun b => b.byteAt? address).getD 0

def write (m : LargeMemory) (start : Nat) (bytes : Bytes) : LargeMemory :=
  ⟨⟨start, bytes.toArray⟩ :: m.blocks⟩

theorem byteAt_write (m : LargeMemory) (start : Nat) (bytes : Bytes) (address : Nat) :
    (m.write start bytes).byteAt address =
      if start ≤ address ∧ address < start + bytes.length then bytes.getD (address - start) 0
      else m.byteAt address := by
  simp only [byteAt, write, List.findSome?_cons]
  by_cases h : address < start
  · have hn : MemoryBlock.byteAt? ⟨start, bytes.toArray⟩ address = none := by
      simp only [MemoryBlock.byteAt?, h, if_true]
    rw [hn, if_neg (by omega)]
  · by_cases hb : address - start < bytes.length
    · have hs : MemoryBlock.byteAt? ⟨start, bytes.toArray⟩ address =
          some bytes[address - start] := by
        simp only [MemoryBlock.byteAt?, h, if_false, List.getElem?_toArray,
          List.getElem?_eq_getElem hb]
      rw [hs, if_pos (by omega)]
      simp [List.getD, hb]
    · have hn : MemoryBlock.byteAt? ⟨start, bytes.toArray⟩ address = none := by
        simp only [MemoryBlock.byteAt?, h, if_false, List.getElem?_toArray]
        exact List.getElem?_eq_none (by omega)
      rw [hn, if_neg (by omega)]

end LargeMemory

end PulseSequencer
