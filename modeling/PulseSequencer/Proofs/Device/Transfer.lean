import PulseSequencer.Device.Transfer
import Mathlib.Data.List.GetD

/-
# PulseSequencer.Proofs.Device.Transfer -- the large memory as one memory

Written in chunks, read back chunk by chunk and read later in other chunks, the large
memory is one memory of bytes: what a list of chunks writes reads like one write of all
of it (`LargeMemory.byteAt_write_append`), and what is read in chunks is the range
(`Board.readChunks_spec`).  A byte that reads back wrong is the first difference that the
comparison of its chunk finds (`firstDifference?_of_wrong`), so that a write fails exactly
there.  The blocks that the memory keeps read like bytes that grow with what is written
(`LargeMemory.readsLike_of_writes`).  Main statement: `Board.reads_of_writeMemory`.
-/

namespace PulseSequencer

set_option autoImplicit false

/-! ## Differences -/

theorem complement_ne (byte : UInt8) : ~~~byte ≠ byte := by
  intro same
  have numbers := congrArg UInt8.toNat same
  rw [UInt8.toNat_not, UInt8.size] at numbers
  have := byte.toNat_lt
  omega

theorem firstDifference?_self (bytes : Bytes) : firstDifference? bytes bytes = none := by
  rw [firstDifference?, List.findIdx?_eq_none_iff]
  rintro ⟨x, y⟩ there
  obtain ⟨i, _, pair⟩ := List.getElem_of_mem there
  rw [List.getElem_zip] at pair
  obtain ⟨rfl, rfl⟩ := Prod.mk.inj pair
  simp

/-- A wrong byte is found if all bytes in front of it are right. -/
theorem firstDifference?_of_wrong {back bytes : Bytes} {place : Nat}
    (inBack : place < back.length) (inBytes : place < bytes.length)
    (right : ∀ i, i < place → back[i]? = bytes[i]?) (wrong : back[place] ≠ bytes[place]) :
    firstDifference? back bytes = some place := by
  rw [firstDifference?, List.findIdx?_eq_some_iff_getElem]
  refine ⟨by simp only [List.length_zip]; omega, by simpa using wrong, fun i before => ?_⟩
  have same := right i before
  rw [List.getElem?_eq_getElem (Nat.lt_trans before inBack),
    List.getElem?_eq_getElem (Nat.lt_trans before inBytes)] at same
  simpa using Option.some.inj same

/-! ## The memory of bytes -/

namespace LargeMemory

/-- The byte that was written last at a place, if any was. -/
def lastWritten? (m : LargeMemory) (place : Nat) : Option UInt8 :=
  m.blocks.findSome? fun block => block.byteAt? place

theorem byteAt_eq (m : LargeMemory) (place : Nat) :
    m.byteAt place = (m.lastWritten? place).getD 0 := rfl

/-- **Two writes one behind the other are one write.** -/
theorem byteAt_write_append (m : LargeMemory) (start : Nat) (first rest : Bytes) (place : Nat) :
    (m.write start (first ++ rest)).byteAt place =
      ((m.write start first).write (start + first.length) rest).byteAt place := by
  simp only [byteAt_write, List.length_append]
  by_cases inFirst : start ≤ place ∧ place < start + first.length
  · rw [if_pos (by omega), if_neg (by omega), if_pos inFirst,
      List.getD_append _ _ _ _ (by omega)]
  · by_cases inRest : start + first.length ≤ place ∧ place < start + first.length + rest.length
    · rw [if_pos (by omega), if_pos inRest, List.getD_append_right _ _ _ _ (by omega)]
      congr 1
      omega
    · rw [if_neg (by omega), if_neg inRest, if_neg inFirst]

end LargeMemory

/-! ## A memory that grows -/

/-- The bytes of a memory behind a write: zeros fill it up to the place that is written. -/
theorem getD_storeAt (memory : Bytes) (start : Nat) (bytes : Bytes) (place : Nat) :
    (storeAt memory start bytes).getD place 0 =
      if start ≤ place ∧ place < start + bytes.length then bytes.getD (place - start) 0
      else memory.getD place 0 := by
  have filled (place : Nat) :
      (memory ++ List.replicate (start + bytes.length - memory.length) 0).getD place 0 =
        memory.getD place 0 := by
    rcases Nat.lt_or_ge place memory.length with old | new
    · exact List.getD_append _ _ _ _ old
    · rw [List.getD_append_right _ _ _ _ new, List.getD_eq_getElem?_getD,
        List.getElem?_getD_replicate_default_eq, List.getD_eq_default _ _ new]
  have before : ((memory ++ List.replicate (start + bytes.length - memory.length) 0).take
      start).length = start := by
    rw [List.length_take, List.length_append, List.length_replicate]
    omega
  simp only [storeAt, List.append_assoc]
  rcases Nat.lt_or_ge place start with low | high
  · rw [if_neg (by omega), List.getD_append _ _ _ _ (by omega), ← filled,
      List.getD_eq_getElem?_getD, List.getD_eq_getElem?_getD, List.getElem?_take_of_lt low]
  · rw [List.getD_append_right _ _ _ _ (by omega), before]
    rcases Nat.lt_or_ge place (start + bytes.length) with inside | above
    · rw [if_pos ⟨high, inside⟩, List.getD_append _ _ _ _ (by omega)]
    · rw [if_neg (by omega), List.getD_append_right _ _ _ _ (by omega), ← filled,
        List.getD_eq_getElem?_getD, List.getD_eq_getElem?_getD, List.getElem?_drop]
      congr 2
      omega

namespace LargeMemory

/-- The blocks read like a memory of bytes that has grown as far as it was written. -/
def ReadsLike (m : LargeMemory) (memory : Bytes) : Prop :=
  ∀ place, m.byteAt place = memory.getD place 0

theorem readsLike_empty : ({} : LargeMemory).ReadsLike [] := fun _ => rfl

theorem ReadsLike.write {m : LargeMemory} {memory : Bytes} (like : m.ReadsLike memory)
    (start : Nat) (bytes : Bytes) : (m.write start bytes).ReadsLike (storeAt memory start bytes) := by
  intro place
  rw [byteAt_write, getD_storeAt, like place]

/-- **Blocks are a memory that grows.**  After the same writes both read alike, everywhere. -/
theorem readsLike_of_writes (writes : List (Nat × Bytes)) :
    (writes.foldl (fun m w => m.write w.1 w.2) ({} : LargeMemory)).ReadsLike
      (writes.foldl (fun memory w => storeAt memory w.1 w.2) []) := by
  suffices ∀ (m : LargeMemory) (memory : Bytes), m.ReadsLike memory →
      (writes.foldl (fun m w => m.write w.1 w.2) m).ReadsLike
        (writes.foldl (fun memory w => storeAt memory w.1 w.2) memory) from
    this _ _ readsLike_empty
  induction writes with
  | nil => exact fun _ _ like => like
  | cons w rest ih => exact fun _ _ like => ih _ _ (like.write w.1 w.2)

end LargeMemory

namespace Board

/-! ## Ranges -/

/-- Whether the board reads back wrong somewhere in a range. -/
def CorruptIn (b : Board) (start length : Nat) : Prop :=
  ∃ c, b.corruptAt = some c ∧ start ≤ c.toNat ∧ c.toNat < start + length

/-- What the large memory holds in a range. -/
def stored (b : Board) (start length : Nat) : Bytes :=
  (List.range length).map fun i => b.memory.byteAt (start + i)

/-- Two boards with the same large memory. -/
structure SameMemory (b b' : Board) : Prop where
  bytes : ∀ place, b'.memory.byteAt place = b.memory.byteAt place
  corruptAt : b'.corruptAt = b.corruptAt

namespace SameMemory

variable {a b c : Board}

theorem refl (b : Board) : SameMemory b b := ⟨fun _ => rfl, rfl⟩

theorem trans (first : SameMemory a b) (second : SameMemory b c) : SameMemory a c where
  bytes place := (second.bytes place).trans (first.bytes place)
  corruptAt := second.corruptAt.trans first.corruptAt

theorem stored (same : SameMemory a b) (start length : Nat) :
    b.stored start length = a.stored start length :=
  List.map_congr_left fun i _ => same.bytes (start + i)

theorem corruptIn (same : SameMemory a b) {start length : Nat} :
    b.CorruptIn start length ↔ a.CorruptIn start length := by
  rw [CorruptIn, CorruptIn, same.corruptAt]

end SameMemory

theorem CorruptIn.mono {b : Board} {start length outer size : Nat}
    (corrupt : b.CorruptIn start length) (below : outer ≤ start)
    (above : start + length ≤ outer + size) : b.CorruptIn outer size := by
  obtain ⟨c, held, low, high⟩ := corrupt
  exact ⟨c, held, by omega, by omega⟩

theorem largeMemorySize_lt : largeMemorySize < UInt64.size := by decide

theorem toNat_address (address : UInt64) {i : Nat} (small : address.toNat + i < UInt64.size) :
    (address + UInt64.ofNat i).toNat = address.toNat + i := by
  have size : UInt64.size = 2 ^ 64 := rfl
  rw [UInt64.toNat_add, UInt64.toNat_ofNat']
  omega

/-! ## One chunk -/

/-- The bytes that a chunk reads back as. -/
def shown (b : Board) (address : UInt64) (length : Nat) : Bytes :=
  (List.range length).map fun i => b.memoryByte (address + UInt64.ofNat i)

theorem length_shown (b : Board) (address : UInt64) (length : Nat) :
    (b.shown address length).length = length := by
  rw [shown, List.length_map, List.length_range]

/-- A chunk is read whole, and reading it leaves the memory. -/
theorem readChunk_spec (b : Board) (address : UInt64) (length : Nat)
    (fits : address.toNat + length ≤ largeMemorySize) :
    (b.readChunk address length).2 = b.shown address length ∧
      b.SameMemory (b.readChunk address length).1 := by
  have small : length < UInt64.size := by
    have limit := largeMemorySize_lt
    omega
  rw [readChunk, write, parseFrames_frames]
  refine ⟨?_, fun _ => rfl, rfl⟩
  show (List.range (min length (UInt64.ofNat length).toNat)).map _ = _
  rw [UInt64.toNat_ofNat', Nat.mod_eq_of_lt small, Nat.min_self]
  rfl

theorem shown_of_sound {b : Board} {address : UInt64} {length : Nat}
    (fits : address.toNat + length ≤ largeMemorySize)
    (sound : ¬b.CorruptIn address.toNat length) :
    b.shown address length = b.stored address.toNat length := by
  refine List.map_congr_left fun i inside => ?_
  have inside := List.mem_range.1 inside
  have limit := largeMemorySize_lt
  have place : (address + UInt64.ofNat i).toNat = address.toNat + i :=
    toNat_address address (by omega)
  rw [memoryByte, place, if_neg fun held => sound ⟨_, held, by omega, by omega⟩]

/-- The board with a block in its large memory. -/
def holding (b : Board) (start : Nat) (bytes : Bytes) : Board :=
  { b with memory := b.memory.write start bytes }

theorem SameMemory.holding {a b : Board} (same : SameMemory a b) (start : Nat) (bytes : Bytes) :
    SameMemory (a.holding start bytes) (b.holding start bytes) where
  bytes place := by
    simp only [Board.holding, LargeMemory.byteAt_write, same.bytes]
  corruptAt := same.corruptAt

theorem SameMemory.shown {a b : Board} (same : SameMemory a b) (address : UInt64) (length : Nat) :
    b.shown address length = a.shown address length := by
  refine List.map_congr_left fun i _ => ?_
  rw [memoryByte, memoryByte, same.bytes, same.corruptAt]

theorem stored_holding (b : Board) (start : Nat) (bytes : Bytes) :
    (b.holding start bytes).stored start bytes.length = bytes := by
  refine List.ext_getElem (by simp [stored]) fun i _ inside => ?_
  simp only [stored, holding, List.getElem_map, List.getElem_range, LargeMemory.byteAt_write]
  rw [if_pos (by omega), Nat.add_sub_cancel_left, List.getD_eq_getElem _ _ inside]

/-- Writing a chunk is writing it as one block and comparing what is shown then. -/
theorem writeChunk_eq (b : Board) {address : UInt64} {bytes : Bytes}
    (fits : address.toNat + bytes.length ≤ largeMemorySize) :
    ∃ after, SameMemory (b.holding address.toNat bytes) after ∧
      b.writeChunk address bytes =
        match firstDifference?
            ((b.holding address.toNat bytes).shown address bytes.length) bytes with
        | some offset => (after, .error (.memoryMismatch (address + UInt64.ofNat offset)))
        | none => (after, .ok ()) := by
  have placed : SameMemory (b.holding address.toNat bytes)
      ((b.write .registers (frames [(Register.memoryWriteAddress.address, address)])).write
        .memory bytes) := by
    rw [write, write, parseFrames_frames]
    exact ⟨fun _ => rfl, rfl⟩
  obtain ⟨back, kept⟩ := readChunk_spec
    ((b.write .registers (frames [(Register.memoryWriteAddress.address, address)])).write
      .memory bytes) address bytes.length fits
  refine ⟨_, placed.trans kept, ?_⟩
  rw [← placed.shown, ← back]
  rfl

theorem writeChunk_of_sound (b : Board) (address : UInt64) (bytes : Bytes)
    (fits : address.toNat + bytes.length ≤ largeMemorySize)
    (sound : ¬b.CorruptIn address.toNat bytes.length) :
    ∃ after, b.writeChunk address bytes = (after, .ok ()) ∧
      SameMemory (b.holding address.toNat bytes) after := by
  obtain ⟨after, same, written⟩ := b.writeChunk_eq fits
  have soundAfter : ¬(b.holding address.toNat bytes).CorruptIn address.toNat bytes.length := sound
  refine ⟨after, ?_, same⟩
  rw [written, shown_of_sound fits soundAfter, stored_holding, firstDifference?_self]

/-- A written byte reads back as itself, and as its complement at the wrong place. -/
theorem memoryByte_holding (b : Board) (address : UInt64) (bytes : Bytes) {i : Nat}
    (fits : address.toNat + bytes.length ≤ largeMemorySize) (inside : i < bytes.length) :
    (b.holding address.toNat bytes).memoryByte (address + UInt64.ofNat i) =
      if b.corruptAt = some (address + UInt64.ofNat i) then ~~~bytes[i] else bytes[i] := by
  have limit := largeMemorySize_lt
  have place : (address + UInt64.ofNat i).toNat = address.toNat + i :=
    toNat_address address (by omega)
  have byte : (b.holding address.toNat bytes).memory.byteAt (address.toNat + i) = bytes[i] := by
    rw [holding, LargeMemory.byteAt_write, if_pos ⟨Nat.le_add_right .., by omega⟩,
      Nat.add_sub_cancel_left, List.getD_eq_getElem _ _ inside]
  have same : (b.holding address.toNat bytes).corruptAt = b.corruptAt := rfl
  simp only [memoryByte, place, byte, same]

theorem writeChunk_of_corrupt (b : Board) (address : UInt64) (bytes : Bytes) {c : UInt64}
    (fits : address.toNat + bytes.length ≤ largeMemorySize) (corrupt : b.corruptAt = some c)
    (low : address.toNat ≤ c.toNat) (high : c.toNat < address.toNat + bytes.length) :
    (b.writeChunk address bytes).2 = .error (.memoryMismatch c) := by
  have limit := largeMemorySize_lt
  obtain ⟨place, inside, rfl⟩ :
      ∃ place, place < bytes.length ∧ c = address + UInt64.ofNat place := by
    refine ⟨c.toNat - address.toNat, by omega, UInt64.toNat_inj.1 ?_⟩
    rw [toNat_address address (by omega)]
    omega
  have held : ∀ i, i < bytes.length →
      (b.corruptAt = some (address + UInt64.ofNat i) ↔ place = i) := fun i within => by
    rw [corrupt, Option.some.injEq, ← UInt64.toNat_inj, toNat_address address (by omega),
      toNat_address address (by omega)]
    omega
  have found : firstDifference? ((b.holding address.toNat bytes).shown address bytes.length) bytes =
      some place := by
    refine firstDifference?_of_wrong (by rwa [length_shown]) inside (fun i before => ?_) ?_
    · have within := Nat.lt_trans before inside
      rw [shown, List.getElem?_map, List.getElem?_range within, Option.map_some,
        b.memoryByte_holding address bytes fits within, if_neg ((held i within).not.2 (by omega)),
        List.getElem?_eq_getElem within]
    · simp only [shown, List.getElem_map, List.getElem_range]
      rw [b.memoryByte_holding address bytes fits inside, if_pos corrupt]
      exact complement_ne _
  obtain ⟨after, _, written⟩ := b.writeChunk_eq fits
  rw [written, found]

/-! ## All chunks -/

/-- **Chunks come out as one block** where nothing reads back wrong. -/
theorem writeChunks_of_sound (b : Board) (address : UInt64) (pieces : List Bytes)
    (fits : address.toNat + pieces.flatten.length ≤ largeMemorySize)
    (sound : ¬b.CorruptIn address.toNat pieces.flatten.length) :
    ∃ after, b.writeChunks address pieces = (after, .ok ()) ∧
      SameMemory (b.holding address.toNat pieces.flatten) after := by
  induction pieces generalizing b address with
  | nil =>
      refine ⟨b, rfl, fun place => ?_, rfl⟩
      rw [List.flatten_nil, holding, LargeMemory.byteAt_write, List.length_nil, if_neg (by omega)]
  | cons piece rest ih =>
      have limit := largeMemorySize_lt
      rw [List.flatten_cons, List.length_append] at fits sound
      have next : (address + UInt64.ofNat piece.length).toNat = address.toNat + piece.length :=
        toNat_address address (by omega)
      obtain ⟨middle, first, same⟩ := b.writeChunk_of_sound address piece (by omega)
        fun corrupt => sound (corrupt.mono (Nat.le_refl _) (by omega))
      obtain ⟨after, others, further⟩ := ih middle (address + UInt64.ofNat piece.length) (by omega)
        fun corrupt => sound ((same.corruptIn.1 corrupt).mono (by omega) (by omega))
      refine ⟨after, ?_, fun place => ?_, further.corruptAt.trans same.corruptAt⟩
      · rw [writeChunks, first]
        exact others
      · rw [further.bytes, (same.holding _ _).bytes, next, List.flatten_cons]
        exact (b.memory.byteAt_write_append address.toNat piece rest.flatten place).symm

/-- **A write fails at the byte that reads back wrong.** -/
theorem writeChunks_of_corrupt (b : Board) (address : UInt64) (pieces : List Bytes) {c : UInt64}
    (fits : address.toNat + pieces.flatten.length ≤ largeMemorySize)
    (corrupt : b.corruptAt = some c) (low : address.toNat ≤ c.toNat)
    (high : c.toNat < address.toNat + pieces.flatten.length) :
    (b.writeChunks address pieces).2 = .error (.memoryMismatch c) := by
  induction pieces generalizing b address with
  | nil =>
      rw [List.flatten_nil, List.length_nil] at high
      omega
  | cons piece rest ih =>
      have limit := largeMemorySize_lt
      rw [List.flatten_cons, List.length_append] at fits high
      have next : (address + UInt64.ofNat piece.length).toNat = address.toNat + piece.length :=
        toNat_address address (by omega)
      by_cases here : c.toNat < address.toNat + piece.length
      · have failed := b.writeChunk_of_corrupt address piece (by omega) corrupt low here
        rw [writeChunks]
        split
        · rename_i written
          rw [written] at failed
          cases failed
        · exact failed
      · have sound : ¬b.CorruptIn address.toNat piece.length := by
          rintro ⟨other, held, _, inside⟩
          obtain rfl := Option.some.inj (corrupt.symm.trans held)
          exact here inside
        obtain ⟨middle, first, same⟩ := b.writeChunk_of_sound address piece (by omega) sound
        rw [writeChunks, first]
        exact ih middle _ (by omega) (same.corruptAt.trans corrupt) (by omega) (by omega)

theorem stored_add (b : Board) (start first rest : Nat) :
    b.stored start (first + rest) = b.stored start first ++ b.stored (start + first) rest := by
  simp only [stored, List.range_add, List.map_append, List.map_map, Function.comp_def,
    Nat.add_assoc]

/-- **What is read in chunks is the range**, and reading leaves the memory. -/
theorem readChunks_spec (b : Board) (address : UInt64) (length quantum : Nat)
    (fits : address.toNat + length ≤ largeMemorySize)
    (sound : ¬b.CorruptIn address.toNat length) :
    (b.readChunks address length quantum).2 = b.stored address.toNat length ∧
      b.SameMemory (b.readChunks address length quantum).1 := by
  induction size : length using Nat.strongRecOn generalizing b address length with
  | _ n ih =>
      subst size
      rw [readChunks]
      split
      · rename_i empty
        subst empty
        exact ⟨rfl, .refl b⟩
      · rename_i some
        have limit := largeMemorySize_lt
        have positive : 0 < min (max quantum 1) length := by omega
        have within : min (max quantum 1) length ≤ length := Nat.min_le_right ..
        -- of the quantum it only counts that the first chunk is not empty
        generalize min (max quantum 1) length = first at positive within
        have next : (address + UInt64.ofNat first).toNat = address.toNat + first :=
          toNat_address address (by omega)
        obtain ⟨bytes, same⟩ := b.readChunk_spec address first (by omega)
        rw [shown_of_sound (by omega) fun corrupt =>
          sound (corrupt.mono (Nat.le_refl _) (by omega))] at bytes
        obtain ⟨others, further⟩ := ih (length - first) (by omega) (b.readChunk address first).1
          (address + UInt64.ofNat first) (length - first) (by omega)
          (fun corrupt => sound ((same.corruptIn.1 corrupt).mono (by omega) (by omega))) rfl
        refine ⟨?_, same.trans further⟩
        rw [same.stored, next] at others
        have whole := b.stored_add address.toNat first (length - first)
        rw [Nat.add_sub_cancel' within] at whole
        rw [whole, ← bytes, ← others]

/-- **The large memory is a memory of bytes.**  A write that leaves the address space
fails and does nothing at all.  Any other succeeds if none of its bytes reads back wrong:
then every range without such a byte reads as the new bytes where they were written and
as before elsewhere, zero where nothing was ever written, in chunks of any size and until
the memory is written again.  Where a byte of the write reads back wrong, the write fails
there. -/
theorem reads_of_writeMemory (b : Board) (address : UInt64) (bytes : Bytes) (quantum : Nat) :
    (largeMemorySize < address.toNat + bytes.length →
      b.writeMemory address bytes quantum =
        (b, .error (.memoryRange bytes.length address))) ∧
    (address.toNat + bytes.length ≤ largeMemorySize →
      ¬b.CorruptIn address.toNat bytes.length →
      ∃ after, b.writeMemory address bytes quantum = (after, .ok ()) ∧
        ∀ later, after.SameMemory later → ∀ (start : UInt64) (length size : Nat),
          start.toNat + length ≤ largeMemorySize → ¬b.CorruptIn start.toNat length →
          ∃ last, after.SameMemory last ∧ later.readMemory start length size =
            .ok (last, (List.range length).map fun i =>
              if address.toNat ≤ start.toNat + i ∧ start.toNat + i < address.toNat + bytes.length
              then bytes.getD (start.toNat + i - address.toNat) 0
              else (b.memory.lastWritten? (start.toNat + i)).getD 0)) ∧
    (address.toNat + bytes.length ≤ largeMemorySize →
      ∀ c, b.corruptAt = some c → address.toNat ≤ c.toNat →
        c.toNat < address.toNat + bytes.length →
        (b.writeMemory address bytes quantum).2 = .error (.memoryMismatch c)) := by
  refine ⟨fun beyond => ?_, fun fits sound => ?_, fun fits c corrupt low high => ?_⟩
  · rw [writeMemory, checkRange, if_neg (by omega)]
  · have chunked := flatten_chunks quantum bytes
    obtain ⟨after, written, same⟩ := b.writeChunks_of_sound address (chunks quantum bytes)
      (by rwa [chunked]) (by rwa [chunked])
    rw [chunked] at same
    refine ⟨after, ?_, fun later untouched start length size fitsRead soundRead => ?_⟩
    · rw [writeMemory, checkRange, if_pos fits]
      exact written
    · have since := same.trans untouched
      obtain ⟨read, kept⟩ := later.readChunks_spec start length size fitsRead
        fun corrupt => soundRead (since.corruptIn.1 corrupt)
      refine ⟨(later.readChunks start length size).1, untouched.trans kept, ?_⟩
      rw [readMemory, checkRange, if_pos fitsRead]
      refine congrArg Except.ok (Prod.ext rfl (read.trans ?_))
      rw [since.stored]
      refine List.map_congr_left fun i _ => ?_
      rw [holding, LargeMemory.byteAt_write, ← LargeMemory.byteAt_eq]
  · have chunked := flatten_chunks quantum bytes
    rw [writeMemory, checkRange, if_pos fits]
    exact b.writeChunks_of_corrupt address (chunks quantum bytes) (by rwa [chunked]) corrupt low
      (by rwa [chunked])

/-- A board with some bytes that were written before, and one place that reads back wrong. -/
def worn : Board where
  memory := ({} : LargeMemory).write 3 [9, 9]
  corruptAt := some 5

theorem worn_corruptIn_iff {start length : Nat} :
    worn.CorruptIn start length ↔ start ≤ 5 ∧ 5 < start + length := by
  constructor
  · rintro ⟨c, held, low, high⟩
    obtain rfl := Option.some.inj held
    exact ⟨low, high⟩
  · rintro ⟨low, high⟩
    exact ⟨5, rfl, low, high⟩

/-- Three bytes over an old one, read back between another old one and one that was never
written; a write over the wrong place, and one over the end of the memory. -/
theorem reads_of_writeMemory_worn :
    (∃ after last, worn.writeMemory 1 [1, 2, 3] 2 = (after, .ok ()) ∧
        after.readMemory 0 5 0 = .ok (last, [0, 1, 2, 3, 9])) ∧
      (worn.writeMemory 4 [7, 8, 7] 0).2 = .error (.memoryMismatch 5) ∧
      worn.writeMemory 0x7ffffff [1, 2] 1 = (worn, .error (.memoryRange 2 0x7ffffff)) := by
  refine ⟨?_, ?_, ?_⟩
  · obtain ⟨after, written, reads⟩ := (reads_of_writeMemory worn 1 [1, 2, 3] 2).2.1 (by decide)
      (worn_corruptIn_iff.not.2 (by decide))
    obtain ⟨last, _, read⟩ := reads after (.refl after) 0 5 0 (by decide)
      (worn_corruptIn_iff.not.2 (by decide))
    exact ⟨after, last, written, read⟩
  · exact (reads_of_writeMemory worn 4 [7, 8, 7] 0).2.2 (by decide) 5 rfl (by decide) (by decide)
  · exact (reads_of_writeMemory worn 0x7ffffff [1, 2] 1).1 (by decide)

end Board

end PulseSequencer
