import PulseSequencer.Device.Engine
import PulseSequencer.Proofs.Bytes
import PulseSequencer.Proofs.Device.Merge
import PulseSequencer.Proofs.Except

/-
# PulseSequencer.Proofs.Device.Synchrony -- a board in step with its program

An upload puts the data image at the start of the data memory of the board, and it stays
there: the changes that an update tells turn the old image into the new one
(`foldl_changes`), and the engine writes each where the board has the word
(`writeDataWords_image`).  So the board has the word of every variable after all updates
(`inStep_of_upload`).
-/

namespace PulseSequencer

set_option autoImplicit false

/-! ## What an update tells -/

namespace Program

/-- A data image with the words of changes. -/
def withChanges (data : List UInt64) (changes : List Change) : List UInt64 :=
  changes.foldl (fun data change => data.set change.1 change.2) data

theorem withChanges_append (data : List UInt64) (changes : List Change) (c : Change) :
    withChanges data (changes ++ [c]) = (withChanges data changes).set c.1 c.2 :=
  List.foldl_append

/-- The changes so far turn the data image of the start into that of the program. -/
structure Told (data : List UInt64) (u : Updated) : Prop where
  coherent : u.program.Coherent
  data_eq : withChanges data u.changes = u.program.data
  inside : ∀ change ∈ u.changes, change.1 < data.length
  length_eq : u.program.data.length = data.length

section Told

variable {α : Type} {change : Variable → α → Variable} {data : List UInt64} {u : Updated}

/-- **One change more.** -/
theorem Told.updateOne (told : Told data u) (resets : ∀ a, Variable.Resets fun v => change v a)
    (name : String) (a : α) : Told data (updateOne change u name a) := by
  have coherent : (Program.updateOne change u name a).program.Coherent := by
    rw [updateOne_eq_revise resets told.coherent name a]
    exact coherent_revise told.coherent (resets_ite (resets a))
  rw [Program.updateOne] at coherent ⊢
  split at coherent
  · exact ⟨coherent, told.data_eq, told.inside, told.length_eq⟩
  · rename_i v found
    have held := told.coherent.getElem?_data_of_find? found
    have slot : (change v a).slot = v.slot := (resets a).slot_eq v
    have inside : v.slot < u.program.data.length := (List.getElem?_eq_some_iff.1 held).1
    have length_eq : (u.program.store (change v a)).data.length = data.length := by
      rw [store, List.length_set, told.length_eq]
    refine ⟨coherent, ?_, ?_, length_eq⟩
    · dsimp only
      split
      · rename_i same
        have kept : u.program.data[v.slot] = (change v a).word := by
          rw [(List.getElem?_eq_some_iff.1 held).2, same, wordAt, held]
          rfl
        rw [told.data_eq, store, slot, ← kept, List.set_getElem_self inside]
      · rw [withChanges_append, told.data_eq]
        rfl
    · dsimp only
      split
      · exact told.inside
      · refine List.forall_mem_append.2 ⟨told.inside, fun c there => ?_⟩
        obtain rfl := List.mem_singleton.1 there
        rw [slot, ← told.length_eq]
        exact inside

/-- **The changes that an update tells turn the old image into the new one.** -/
theorem told_updateEach {p : Program} (coherent : p.Coherent)
    (resets : ∀ a, Variable.Resets fun v => change v a) (values : Table String α) :
    Told p.data (updateEach change p values) := by
  rw [updateEach]
  have start : Told p.data { program := p } :=
    ⟨coherent, rfl, fun _ there => absurd there List.not_mem_nil, rfl⟩
  generalize ({ program := p } : Updated) = u at start
  induction values.entries generalizing u with
  | nil => exact start
  | cons entry rest ih => exact ih _ (start.updateOne resets entry.1 entry.2)

end Told

end Program

/-! ## Words in the memory of the board -/

theorem storeAt_inside {a old r : Bytes} {start : Nat} {bytes : Bytes} (atStart : a.length = start)
    (sameLength : old.length = bytes.length) :
    storeAt (a ++ old ++ r) start bytes = a ++ bytes ++ r := by
  have none' : start + bytes.length - (a ++ old ++ r).length = 0 := by
    simp only [List.length_append]
    omega
  have front : (a ++ old ++ r).take start = a := by
    rw [List.append_assoc, ← atStart, List.take_left]
  have back : (a ++ old ++ r).drop (start + bytes.length) = r := by
    rw [← atStart, ← sameLength, ← List.length_append, List.drop_left]
  simp only [storeAt, none', List.replicate_zero, List.append_nil, front, back]

/-- A word of an image at the start of a memory. -/
theorem image_storeAt {ws : List UInt64} {memory : Bytes} (image : bytesOfWords ws <+: memory)
    {slot : Nat} (inside : slot < ws.length) (w : UInt64) :
    bytesOfWords (ws.set slot w) <+: storeAt memory (slot * 8) (bytesOfWord w) := by
  obtain ⟨rest, rfl⟩ := image
  have cut : ws = ws.take slot ++ ws[slot] :: ws.drop (slot + 1) := by
    rw [List.getElem_cons_drop, List.take_append_drop]
  have atStart : (bytesOfWords (ws.take slot)).length = slot * 8 := by
    rw [length_bytesOfWords, List.length_take, Nat.min_eq_left (Nat.le_of_lt inside)]
    omega
  have memory : bytesOfWords ws ++ rest = bytesOfWords (ws.take slot) ++ bytesOfWord ws[slot] ++
      (bytesOfWords (ws.drop (slot + 1)) ++ rest) := by
    conv_lhs => rw [cut, bytesOfWords_append]
    simp only [bytesOfWords, List.flatMap_cons, List.append_assoc]
  have next : bytesOfWords (ws.set slot w) = bytesOfWords (ws.take slot) ++ bytesOfWord w ++
      bytesOfWords (ws.drop (slot + 1)) := by
    rw [List.set_eq_take_append_cons_drop, if_pos inside, bytesOfWords_append]
    simp [bytesOfWords]
  rw [memory, storeAt_inside atStart (by rw [length_bytesOfWord, length_bytesOfWord]), next]
  exact ⟨rest, by simp⟩

/-- The complete words of the data memory. -/
def Board.dataWords (b : Board) : List UInt64 := (splitWords b.data).1

theorem Board.dataWords_of_image {b : Board} {ws : List UInt64} (image : bytesOfWords ws <+: b.data)
    {slot : Nat} (inside : slot < ws.length) : b.dataWords[slot]? = ws[slot]? := by
  obtain ⟨rest, data⟩ := image
  rw [dataWords, ← data, splitWords_bytesOfWords_append, List.getElem?_append_left inside]

namespace Engine

theorem board_writeRegisters (e : Engine) (writes : List RegisterWrite) :
    (e.writeRegisters writes).board = writes.foldl Board.writeRegister e.board := by
  rw [writeRegisters, Board.write, parseFrames_frames]

/-- The write that a change is. -/
def slotWrite (change : Change) : RegisterWrite :=
  (UInt16.ofNat (change.1 + Register.dataBase.toNat), change.2)

/-- The slots with a register. -/
theorem slotRegister_eq_ok {limits : MemoryLimits} {slot : Nat} {register : UInt16} :
    slotRegister limits slot = .ok register ↔ (slot < limits.data ∧ slot < 0xF000) ∧
      register = UInt16.ofNat (slot + Register.dataBase.toNat) := by
  have base : Register.dataBase.toNat = 0x1000 := rfl
  rw [slotRegister]
  split
  · rename_i inside
    rw [Except.ok.injEq, eq_comm]
    exact (and_iff_right ⟨inside.1, by omega⟩).symm
  · rename_i outside
    constructor
    · rintro ⟨⟩
    · rintro ⟨⟨below, small⟩, _⟩
      exact absurd ⟨below, by omega⟩ outside

/-- Words that are written all have registers. -/
theorem inside_of_slotRegisters {limits : MemoryLimits} {changes : List Change}
    {writes : List RegisterWrite}
    (found : changes.mapM (fun (slot, word) => do return (← slotRegister limits slot, word)) =
      (.ok writes : Except HardwareFault (List RegisterWrite))) :
    writes = changes.map slotWrite ∧
      ∀ change ∈ changes, change.1 < limits.data ∧ change.1 < 0xF000 := by
  induction changes generalizing writes with
  | nil => exact ⟨(Except.ok.inj found).symm, fun _ there => absurd there List.not_mem_nil⟩
  | cons change rest ih =>
      rw [List.mapM_cons] at found
      obtain ⟨write, first, found⟩ := bind_eq_ok.1 found
      obtain ⟨others, onward, found⟩ := bind_eq_ok.1 found
      obtain ⟨register, first, made⟩ := bind_eq_ok.1 first
      obtain ⟨inside, rfl⟩ := slotRegister_eq_ok.1 first
      obtain ⟨rfl, all⟩ := ih onward
      obtain rfl := Except.ok.inj made
      exact ⟨(Except.ok.inj found).symm, List.forall_mem_cons.2 ⟨inside, all⟩⟩

/-- Changes of slots with a register are all written. -/
theorem slotRegisters_eq {limits : MemoryLimits} {changes : List Change}
    (inside : ∀ change ∈ changes, change.1 < limits.data ∧ change.1 < 0xF000) :
    changes.mapM (fun (slot, word) => do return (← slotRegister limits slot, word)) =
      (.ok (changes.map slotWrite) : Except HardwareFault (List RegisterWrite)) := by
  obtain ⟨writes, found⟩ := exists_mapM
    (f := fun (change : Change) => do return (← slotRegister limits change.1, change.2))
    fun change there => ⟨_, bind_eq_ok.2 ⟨_, slotRegister_eq_ok.2 ⟨inside change there, rfl⟩, rfl⟩⟩
  rw [found, (inside_of_slotRegisters found).1]

/-- A write to the register of a slot is a write of its word. -/
theorem data_writeRegister (b : Board) {change : Change} (small : change.1 < 0xF000) :
    (b.writeRegister (slotWrite change)).data =
      storeAt b.data (change.1 * 8) (bytesOfWord change.2) := by
  obtain ⟨slot, word⟩ := change
  replace small : slot < 0xF000 := small
  have base : Register.dataBase.toNat = 0x1000 := rfl
  have value : (UInt16.ofNat (slot + Register.dataBase.toNat)).toNat = slot + 0x1000 := by
    rw [UInt16.toNat_ofNat', base]
    exact Nat.mod_eq_of_lt (by omega)
  have noRegister : Register.ofAddress? (UInt16.ofNat (slot + Register.dataBase.toNat)) = none := by
    rw [Register.ofAddress?, List.find?_eq_none]
    intro r _ same
    have equal := congrArg UInt16.toNat (eq_of_beq same)
    rw [value] at equal
    cases r <;> simp [Register.address] at equal
  have above : ¬UInt16.ofNat (slot + Register.dataBase.toNat) < Register.dataBase := by
    rw [UInt16.lt_iff_toNat_lt, value, base]
    omega
  have offset : (UInt16.ofNat (slot + Register.dataBase.toNat) - Register.dataBase).toNat = slot := by
    rw [UInt16.toNat_sub_of_le _ _ (UInt16.le_iff_toNat_le.2 (by rw [value, base]; omega)), value,
      base]
    omega
  rw [Board.writeRegister]
  simp only [slotWrite, noRegister, if_neg above, offset]

/-- **Written changes are those of the image in the memory.** -/
theorem image_foldl_writeRegister (b : Board) {data : List UInt64} (small : data.length ≤ 0xF000)
    (image : bytesOfWords data <+: b.data) (changes : List Change)
    (inside : ∀ change ∈ changes, change.1 < data.length) :
    bytesOfWords (Program.withChanges data changes) <+:
      ((changes.map slotWrite).foldl Board.writeRegister b).data := by
  induction changes generalizing b data with
  | nil => exact image
  | cons change rest ih =>
      have here : change.1 < data.length := inside change (List.mem_cons_self ..)
      have next := image_storeAt image here change.2
      rw [← data_writeRegister b (Nat.lt_of_lt_of_le here small)] at next
      have length_eq : (data.set change.1 change.2).length = data.length := List.length_set
      have rest' := ih _ (length_eq ▸ small) next
        fun c there => length_eq ▸ inside c (List.mem_cons_of_mem _ there)
      rwa [List.map_cons, List.foldl_cons]

/-- **Changes inside of an image at the start of the data memory reach the board.** -/
theorem writeDataWords_image {e : Engine} (small : e.config.limits.data ≤ 0xF000)
    {data : List UInt64} (fits : data.length ≤ e.config.limits.data)
    (image : bytesOfWords data <+: e.board.data) {changes : List Change}
    (inside : ∀ change ∈ changes, change.1 < data.length) :
    ∃ next, e.writeDataWords changes = .ok next ∧ next.config = e.config ∧
      bytesOfWords (Program.withChanges data changes) <+: next.board.data := by
  rw [writeDataWords]
  split
  · rename_i none'
    obtain rfl := List.isEmpty_iff.1 none'
    exact ⟨e, rfl, rfl, image⟩
  · have slots : ∀ change ∈ changes, change.1 < e.config.limits.data ∧ change.1 < 0xF000 :=
      fun c there => ⟨Nat.lt_of_lt_of_le (inside c there) fits,
        Nat.lt_of_lt_of_le (inside c there) (Nat.le_trans fits small)⟩
    rw [slotRegisters_eq slots]
    refine ⟨_, rfl, rfl, ?_⟩
    rw [board_writeRegisters]
    exact image_foldl_writeRegister e.board (Nat.le_trans fits small) image changes inside

/-- An upload puts the data image at the start of the data memory. -/
theorem image_of_upload {e : Engine} {code data : Bytes} {next : Engine}
    (uploaded : e.uploadProgram code data = .ok next) :
    next.config = e.config ∧ data.length / 8 ≤ e.config.limits.data ∧ data <+: next.board.data := by
  rw [uploadProgram] at uploaded
  dsimp only at uploaded
  split at uploaded
  · cases uploaded
  · split at uploaded
    · cases uploaded
    · rename_i fits
      obtain rfl := Except.ok.inj uploaded
      refine ⟨rfl, Nat.le_of_not_lt fits, ?_⟩
      have atZero : (e.writeRegisters [(Register.codeAddress.address, 0),
          (Register.dataAddress.address, 0)]).board.dataAddress = 0 := by
        rw [board_writeRegisters]
        rfl
      show data <+: storeAt _ ((e.writeRegisters [(Register.codeAddress.address, 0),
        (Register.dataAddress.address, 0)]).board.dataAddress * 8).toNat data
      rw [atZero]
      exact ⟨_, by rw [storeAt]; rfl⟩

end Engine

/-! ## Updates after an upload -/

namespace Controller

/-- Updates values, and sends the board what they change. -/
def keepInStep (s : Controller × Engine) (values : Table String Quantity) :
    Except HardwareFault (Controller × Engine) := do
  let (c, changes, _) := s.1.updateVariables values
  return (c, ← s.2.writeDataWords changes)

/-- A board whose data memory begins with the image of the program. -/
structure InStep (s : Controller × Engine) : Prop where
  coherent : s.1.program.Coherent
  small : s.2.config.limits.data ≤ 0xF000
  fits : s.1.program.data.length ≤ s.2.config.limits.data
  image : s.1.program.dataImage <+: s.2.board.data

/-- **One update keeps a board in step.** -/
theorem InStep.keepInStep {s : Controller × Engine} (inStep : InStep s)
    (values : Table String Quantity) :
    ∃ next, Controller.keepInStep s values = .ok next ∧ InStep next := by
  have told : Program.Told s.1.program.data
      (Program.updateEach Program.withValue s.1.program values) :=
    Program.told_updateEach inStep.coherent Program.resets_withValue values
  obtain ⟨e, written, config, image⟩ := Engine.writeDataWords_image inStep.small inStep.fits
    inStep.image told.inside
  rw [told.data_eq] at image
  refine ⟨((s.1.updateVariables values).1, e), ?_, told.coherent, config ▸ inStep.small,
    config ▸ told.length_eq ▸ inStep.fits, image⟩
  rw [Controller.keepInStep]
  show (s.2.writeDataWords _ >>= _) = _
  rw [show s.2.writeDataWords (s.1.program.updateVariables values).changes = .ok e from written]
  rfl

/-- **A board stays in step with the program that was uploaded.**  All updates reach the
board, and it has the word of every variable in the slot of the variable. -/
theorem inStep_of_upload (limits : MemoryLimits) (history : List Operation)
    (once : Table String Quantity) (e uploaded : Engine)
    (small : e.config.limits.data ≤ 0xF000) :
    let c := history.foldl perform (withLimits limits)
    e.uploadProgram (c.images once).2.1.code (c.images once).2.1.data = .ok uploaded →
      ∀ updates : List (Table String Quantity),
        ∃ s, updates.foldlM keepInStep ((c.images once).1, uploaded) = .ok s ∧
          ∀ name v, s.1.program.find? name = some v →
            s.2.board.dataWords[v.slot]? = some (s.1.program.wordAt v.slot) := by
  intro c done updates
  have coherent : (c.images once).1.program.Coherent :=
    ((tracks_withLimits limits).foldl history |>.images once).coherent
  obtain ⟨config, fits, image⟩ := Engine.image_of_upload done
  have start : InStep ((c.images once).1, uploaded) := by
    refine ⟨coherent, config ▸ small, ?_, image⟩
    have bytes : (c.images once).2.1.data.length = 8 * (c.images once).1.program.data.length :=
      length_bytesOfWords _
    rw [bytes, Nat.mul_div_cancel_left _ (by decide)] at fits
    exact config ▸ fits
  clear done config fits image coherent
  generalize ((c.images once).1, uploaded) = s at start
  induction updates generalizing s with
  | nil =>
      refine ⟨s, rfl, fun name v found => ?_⟩
      have held := start.coherent.getElem?_data_of_find? found
      rw [Board.dataWords_of_image start.image (List.getElem?_eq_some_iff.1 held).1, held,
        Program.wordAt, held]
      rfl
  | cons values rest ih =>
      obtain ⟨next, kept, inStep⟩ := start.keepInStep values
      obtain ⟨last, ran, words⟩ := ih next inStep
      exact ⟨last, by rw [List.foldlM_cons, kept]; exact ran, words⟩

/-- A board with four words of data. -/
def smallBoard : Engine where
  board := {}
  settings := {}
  catalog := {}
  config := { id := 0, name := "small", limits := { code := 16, data := 4 } }
  capture := { tolerance := 16 }

/-- A program of two variables, one with a value that was given. -/
def twoWords : List Operation :=
  [.load "main.pp" "var a 1 # a value\nvar b 2\nLDWR a\nEND",
    .update (Table.ofList [("a", .plain 5)])]

theorem inStep_of_upload_twoWords :
    let made := (twoWords.foldl perform (withLimits {})).images (Table.ofList [("b", .plain 3)])
    ∃ uploaded, smallBoard.uploadProgram made.2.1.code made.2.1.data = .ok uploaded ∧
      uploaded.board.dataWords = [5, 3] ∧
        ∃ s, [Table.ofList [("b", .plain 7), ("none", .plain 1)],
            Table.ofList [("a", .plain 6)]].foldlM keepInStep (made.1, uploaded) = .ok s ∧
          ∀ name v, s.1.program.find? name = some v →
            s.2.board.dataWords[v.slot]? = some (s.1.program.wordAt v.slot) := by
  intro made
  have words : (smallBoard.uploadProgram made.2.1.code made.2.1.data).toOption.map
      (fun uploaded => uploaded.board.dataWords) = some [5, 3] := by
    decide +kernel
  cases done : smallBoard.uploadProgram made.2.1.code made.2.1.data with
  | error fault =>
      rw [done] at words
      cases words
  | ok uploaded =>
      rw [done] at words
      exact ⟨uploaded, rfl, Option.some.inj words,
        inStep_of_upload {} twoWords (Table.ofList [("b", .plain 3)]) smallBoard uploaded
          (by decide) done _⟩

end Controller

end PulseSequencer
