import PulseSequencer.Device.Command
import PulseSequencer.Proofs.Device.Synchrony
import PulseSequencer.Proofs.Except

/-
# PulseSequencer.Proofs.Device.Capacity -- what the memories of a board may hold

The engine counts the complete words of the images that it loads, and exactly the loads
that have too many are refused, before anything is written (`Engine.perform_load`).  So the
memories of the configuration hold what was loaded, up to the bytes of one word that is not
complete: `Engine.memories_contained` tells it of every history of loads.
-/

namespace PulseSequencer

set_option autoImplicit false

/-! ## Loads -/

namespace EngineCommand

/-- A load of a program, or of words of data. -/
def loads : EngineCommand → Bool
  | uploadProgram _ | writeDataWords _ => true
  | _ => false

/-- The code of a load ends below a bound. -/
def CodeBelow (bound : Nat) : EngineCommand → Prop
  | uploadProgram images => images.code.length ≤ bound
  | _ => True

/-- The data of a load ends below a bound. -/
def DataBelow (bound : Nat) : EngineCommand → Prop
  | uploadProgram images => images.data.length ≤ bound
  | writeDataWords words => ∀ change ∈ words, 8 * (change.1 + 1) ≤ bound
  | _ => True

/-- A load has no more complete words than there are, and words for slots with a register. -/
def Fits (limits : MemoryLimits) : EngineCommand → Prop
  | uploadProgram images =>
      images.code.length / 4 ≤ limits.code ∧ images.data.length / 8 ≤ limits.data
  | writeDataWords words => ∀ change ∈ words, change.1 < limits.data ∧ change.1 < 0xF000
  | _ => True

theorem Fits.codeBelow {limits : MemoryLimits} {c : EngineCommand} (fits : c.Fits limits) :
    c.CodeBelow (4 * limits.code + 3) := by
  cases c with
  | uploadProgram images =>
      have words := fits.1
      show images.code.length ≤ 4 * limits.code + 3
      omega
  | _ => trivial

theorem Fits.dataBelow {limits : MemoryLimits} {c : EngineCommand} (fits : c.Fits limits) :
    c.DataBelow (8 * limits.data + 7) := by
  cases c with
  | uploadProgram images =>
      have words := fits.2
      show images.data.length ≤ 8 * limits.data + 7
      omega
  | writeDataWords words =>
      intro change there
      have inside := (fits change there).1
      omega
  | _ => trivial

/-- The images of a load have complete words only. -/
def Complete : EngineCommand → Prop
  | uploadProgram images => 4 ∣ images.code.length ∧ 8 ∣ images.data.length
  | _ => True

end EngineCommand

/-! ## Writes -/

theorem Board.code_writeRegister (b : Board) (w : RegisterWrite) :
    (b.writeRegister w).code = b.code := by
  rw [writeRegister]
  dsimp only
  split <;> try rfl
  split <;> rfl

theorem Board.code_foldl_writeRegister (b : Board) (writes : List RegisterWrite) :
    (writes.foldl writeRegister b).code = b.code := by
  induction writes generalizing b with
  | nil => rfl
  | cons w rest ih => rw [List.foldl_cons, ih, code_writeRegister]

namespace Engine

open EngineCommand (DataBelow Fits)

/-- The data memory after words were written ends with the last of them, or where it did. -/
theorem length_data_writes_le (b : Board) {changes : List Change}
    (small : ∀ change ∈ changes, change.1 < 0xF000) (bound : Nat) :
    ((changes.map slotWrite).foldl Board.writeRegister b).data.length ≤ bound ↔
      b.data.length ≤ bound ∧ ∀ change ∈ changes, 8 * (change.1 + 1) ≤ bound := by
  induction changes generalizing b with
  | nil => exact ⟨fun le => ⟨le, fun _ there => absurd there List.not_mem_nil⟩, And.left⟩
  | cons change rest ih =>
      obtain ⟨here, others⟩ := List.forall_mem_cons.1 small
      rw [List.map_cons, List.foldl_cons, ih _ others, data_writeRegister b here, length_storeAt,
        length_bytesOfWord, List.forall_mem_cons, Nat.max_le, and_assoc,
        show change.1 * 8 + 8 = 8 * (change.1 + 1) by omega]

/-! ## What a load does -/

/-- The engine after a load.  Its memories end where those before it did, or with what
was loaded. -/
structure Loaded (e : Engine) (c : EngineCommand) (next : Engine) : Prop where
  config : next.config = e.config
  code (bound : Nat) :
    next.board.code.length ≤ bound ↔ e.board.code.length ≤ bound ∧ c.CodeBelow bound
  data (bound : Nat) :
    next.board.data.length ≤ bound ↔ e.board.data.length ≤ bound ∧ c.DataBelow bound

theorem uploadProgram_eq_ok {e : Engine} {images : ProgramImages}
    (fits : Fits e.config.limits (.uploadProgram images)) :
    ∃ next, e.uploadProgram images.code images.data = .ok next ∧
      Loaded e (.uploadProgram images) next := by
  rw [uploadProgram]
  dsimp only
  rw [if_neg (Nat.not_lt.2 fits.1), if_neg (Nat.not_lt.2 fits.2)]
  -- both images start where the two registers point, at zero
  have board := board_writeRegisters e
    [(Register.codeAddress.address, 0), (Register.dataAddress.address, 0)]
  have code : (Board.write (e.writeRegisters [(Register.codeAddress.address, 0),
      (Register.dataAddress.address, 0)]).board .code images.code).code =
        storeAt e.board.code 0 images.code := by
    rw [board]
    rfl
  have data : (Board.write (Board.write (e.writeRegisters [(Register.codeAddress.address, 0),
      (Register.dataAddress.address, 0)]).board .code images.code) .data images.data).data =
        storeAt e.board.data 0 images.data := by
    rw [board]
    rfl
  refine ⟨_, rfl, rfl, fun bound => ?_, fun bound => ?_⟩
  · show List.length (Board.write _ .code _).code ≤ bound ↔ _
    rw [code, length_storeAt, Nat.zero_add, Nat.max_le]
    rfl
  · show List.length (Board.write _ .data _).data ≤ bound ↔ _
    rw [data, length_storeAt, Nat.zero_add, Nat.max_le]
    rfl

theorem uploadProgram_eq_error {e : Engine} {images : ProgramImages}
    (large : ¬Fits e.config.limits (.uploadProgram images)) :
    ∃ fault, e.uploadProgram images.code images.data = .error fault := by
  rw [uploadProgram]
  dsimp only
  split
  · exact ⟨_, rfl⟩
  · rename_i code
    split
    · exact ⟨_, rfl⟩
    · rename_i data
      exact absurd ⟨Nat.not_lt.1 code, Nat.not_lt.1 data⟩ large

theorem writeDataWords_eq_ok {e : Engine} {words : List Change}
    (fits : Fits e.config.limits (.writeDataWords words)) :
    ∃ next, e.writeDataWords words = .ok next ∧ Loaded e (.writeDataWords words) next := by
  rw [writeDataWords]
  split
  · rename_i none'
    obtain rfl := List.isEmpty_iff.1 none'
    have empty : ∀ bound, DataBelow bound (.writeDataWords []) :=
      fun bound change there => absurd there List.not_mem_nil
    exact ⟨e, rfl, rfl, fun bound => (and_iff_left trivial).symm,
      fun bound => (and_iff_left (empty bound)).symm⟩
  · rw [slotRegisters_eq fits]
    refine ⟨_, rfl, rfl, fun bound => ?_, fun bound => ?_⟩
    · rw [board_writeRegisters, Board.code_foldl_writeRegister]
      exact (and_iff_left trivial).symm
    · rw [board_writeRegisters, length_data_writes_le e.board fun c there => (fits c there).2]
      rfl

theorem writeDataWords_eq_error {e : Engine} {words : List Change}
    (outside : ¬Fits e.config.limits (.writeDataWords words)) :
    ∃ fault, e.writeDataWords words = .error fault := by
  cases done : e.writeDataWords words with
  | error fault => exact ⟨fault, rfl⟩
  | ok next =>
      rw [writeDataWords] at done
      split at done
      · rename_i none'
        obtain rfl := List.isEmpty_iff.1 none'
        exact absurd (fun _ there => absurd there List.not_mem_nil) outside
      · obtain ⟨writes, found, _⟩ := bind_eq_ok.1 done
        exact absurd (inside_of_slotRegisters found).2 outside

/-- **A load is written if it fits, and changes nothing otherwise.** -/
theorem perform_load (e : Engine) {c : EngineCommand} (load : c.loads = true) :
    (c.Fits e.config.limits ∧ ∃ next, e.perform c = (next, .ok .done, []) ∧ Loaded e c next) ∨
      (¬c.Fits e.config.limits ∧ ∃ fault, e.perform c = (e, .error fault, [])) := by
  by_cases fits : c.Fits e.config.limits
  · refine .inl ⟨fits, ?_⟩
    cases c with
    | uploadProgram images =>
        obtain ⟨next, done, loaded⟩ := uploadProgram_eq_ok fits
        exact ⟨next, by rw [perform, done]; rfl, loaded⟩
    | writeDataWords words =>
        obtain ⟨next, done, loaded⟩ := writeDataWords_eq_ok fits
        exact ⟨next, by rw [perform, done]; rfl, loaded⟩
    | _ => cases load
  · refine .inr ⟨fits, ?_⟩
    cases c with
    | uploadProgram images =>
        obtain ⟨fault, failed⟩ := uploadProgram_eq_error fits
        exact ⟨_, by rw [perform, failed]; rfl⟩
    | writeDataWords words =>
        obtain ⟨fault, failed⟩ := writeDataWords_eq_error fits
        exact ⟨_, by rw [perform, failed]; rfl⟩
    | _ => cases load

/-! ## Histories of loads -/

/-- The engine after commands, whatever they reply. -/
def performAll (e : Engine) (cs : List EngineCommand) : Engine :=
  cs.foldl (fun e c => (e.perform c).1) e

/-- The memories after loads end with the loads that fit, or where they did. -/
structure LoadedAll (e : Engine) (cs : List EngineCommand) : Prop where
  config : (e.performAll cs).config = e.config
  code (bound : Nat) : (e.performAll cs).board.code.length ≤ bound ↔
    e.board.code.length ≤ bound ∧ ∀ c ∈ cs, c.Fits e.config.limits → c.CodeBelow bound
  data (bound : Nat) : (e.performAll cs).board.data.length ≤ bound ↔
    e.board.data.length ≤ bound ∧ ∀ c ∈ cs, c.Fits e.config.limits → c.DataBelow bound

/-- **All loads together.** -/
theorem loadedAll {e : Engine} {cs : List EngineCommand} (all : ∀ c ∈ cs, c.loads = true) :
    LoadedAll e cs := by
  induction cs generalizing e with
  | nil =>
      have none' : ∀ {P : EngineCommand → Prop}, ∀ c ∈ [], P c :=
        fun _ there => absurd there List.not_mem_nil
      exact ⟨rfl, fun bound => (and_iff_left none').symm, fun bound => (and_iff_left none').symm⟩
  | cons c rest ih =>
      obtain ⟨load, others⟩ := List.forall_mem_cons.1 all
      rcases perform_load e load with ⟨fits, next, done, loaded⟩ | ⟨large, fault, refused⟩
      · have onward : e.performAll (c :: rest) = next.performAll rest := by
          rw [performAll, List.foldl_cons, done]
          rfl
        have after := ih (e := next) others
        refine ⟨onward ▸ after.config.trans loaded.config, fun bound => ?_, fun bound => ?_⟩
        · rw [onward, after.code, loaded.code, loaded.config, List.forall_mem_cons,
            imp_iff_right fits, and_assoc]
        · rw [onward, after.data, loaded.data, loaded.config, List.forall_mem_cons,
            imp_iff_right fits, and_assoc]
      · have onward : e.performAll (c :: rest) = e.performAll rest := by
          rw [performAll, List.foldl_cons, refused]
          rfl
        have after := ih (e := e) others
        refine ⟨onward ▸ after.config, fun bound => ?_, fun bound => ?_⟩
        · rw [onward, after.code, List.forall_mem_cons, and_iff_right (absurd · large)]
        · rw [onward, after.data, List.forall_mem_cons, and_iff_right (absurd · large)]

/-- **The memories of a board keep the loads that fit.**  They end below the limits of the
configuration if no image goes beyond them with a word that is not complete, and with the
bytes of that word otherwise; single words never go beyond them.  Exactly the loads that do
not fit are refused, and they change nothing. -/
theorem memories_contained {e : Engine} (noCode : e.board.code = []) (noData : e.board.data = [])
    {cs : List EngineCommand} (all : ∀ c ∈ cs, c.loads = true) :
    let board := (e.performAll cs).board
    let limits := e.config.limits
    (board.code.length ≤ 4 * limits.code + 3 ∧ board.data.length ≤ 8 * limits.data + 7) ∧
    (board.code.length ≤ 4 * limits.code ↔ ∀ images, .uploadProgram images ∈ cs →
      Fits limits (.uploadProgram images) → images.code.length ≤ 4 * limits.code) ∧
    (board.data.length ≤ 8 * limits.data ↔ ∀ images, .uploadProgram images ∈ cs →
      Fits limits (.uploadProgram images) → images.data.length ≤ 8 * limits.data) ∧
    ((∀ c ∈ cs, c.Complete) →
      board.code.length ≤ 4 * limits.code ∧ board.data.length ≤ 8 * limits.data) ∧
    ∀ (before : List EngineCommand) (c : EngineCommand) (after : List EngineCommand),
      cs = before ++ c :: after →
        (((e.performAll before).perform c).2.1.isOk = true ↔ c.Fits limits) ∧
        (((e.performAll before).perform c).2.1.isOk = false →
          e.performAll (before ++ [c]) = e.performAll before) := by
  intro board limits
  have loaded := loadedAll (e := e) all
  have code := loaded.code
  have data := loaded.data
  rw [noCode] at code
  rw [noData] at data
  have codeIff : board.code.length ≤ 4 * limits.code ↔ ∀ images, .uploadProgram images ∈ cs →
      Fits limits (.uploadProgram images) → images.code.length ≤ 4 * limits.code := by
    refine (code _).trans ⟨fun below images there => below.2 _ there, fun below =>
      ⟨Nat.zero_le _, fun c there fits => ?_⟩⟩
    cases c with
    | uploadProgram images => exact below images there fits
    | _ => trivial
  have dataIff : board.data.length ≤ 8 * limits.data ↔ ∀ images, .uploadProgram images ∈ cs →
      Fits limits (.uploadProgram images) → images.data.length ≤ 8 * limits.data := by
    refine (data _).trans ⟨fun below images there => below.2 _ there, fun below =>
      ⟨Nat.zero_le _, fun c there fits => ?_⟩⟩
    cases c with
    | uploadProgram images => exact below images there fits
    | writeDataWords words =>
        intro change member
        have inside : change.1 < limits.data := (fits change member).1
        omega
    | _ => trivial
  refine ⟨⟨(code _).2 ⟨Nat.zero_le _, fun c _ fits => fits.codeBelow⟩,
    (data _).2 ⟨Nat.zero_le _, fun c _ fits => fits.dataBelow⟩⟩, codeIff, dataIff,
    fun complete => ⟨codeIff.2 fun images there fits => ?_, dataIff.2 fun images there fits => ?_⟩,
    fun before c after here => ?_⟩
  · have below : images.code.length ≤ 4 * limits.code + 3 := fits.codeBelow
    have whole : 4 ∣ images.code.length := (complete _ there).1
    omega
  · have below : images.data.length ≤ 8 * limits.data + 7 := fits.dataBelow
    have whole : 8 ∣ images.data.length := (complete _ there).2
    omega
  · have earlier : ∀ d ∈ before, d.loads = true := fun d there =>
      all d (here ▸ List.mem_append_left _ there)
    have load : c.loads = true := all c (here ▸ List.mem_append_right before (List.mem_cons_self ..))
    have onward : e.performAll (before ++ [c]) = ((e.performAll before).perform c).1 := by
      rw [performAll, List.foldl_append]
      rfl
    have outcome := perform_load (e.performAll before) load
    rw [(loadedAll earlier).config] at outcome
    rcases outcome with ⟨fits, next, done, _⟩ | ⟨large, fault, refused⟩
    · rw [done]
      exact ⟨iff_of_true rfl fits, fun failed => Bool.noConfusion failed⟩
    · rw [onward, refused]
      exact ⟨iff_of_false Bool.false_ne_true large, fun _ => rfl⟩

/-- A board with one instruction and two words of data. -/
def tiny : Engine where
  board := {}
  settings := {}
  catalog := {}
  config := { id := 0, name := "tiny", limits := { code := 1, data := 2 } }
  capture := { tolerance := 16 }

theorem memories_contained_tiny :
    let fits : EngineCommand := .uploadProgram ⟨[1, 2, 3, 4], [5]⟩
    let large : EngineCommand := .uploadProgram ⟨List.replicate 8 0, []⟩
    let inside : EngineCommand := .writeDataWords [(1, 7)]
    let outside : EngineCommand := .writeDataWords [(0, 6), (2, 8)]
    let board := (tiny.performAll [fits, large, inside, outside]).board
    tiny.board.code = [] ∧ tiny.board.data = [] ∧
      board.code = [1, 2, 3, 4] ∧ board.data.length = 16 ∧
      (board.code.length ≤ 4 + 3 ∧ board.data.length ≤ 16 + 7) ∧
      ¬outside.Fits tiny.config.limits ∧
      tiny.performAll [fits, large, inside, outside] = tiny.performAll [fits, large, inside] := by
  intro fits large inside outside board
  obtain ⟨bounds, _, _, _, each⟩ := @memories_contained tiny rfl rfl
    [fits, large, inside, outside] (by decide)
  obtain ⟨accepts, unchanged⟩ := each [fits, large, inside] outside [] rfl
  have refused : ((tiny.performAll [fits, large, inside]).perform outside).2.1.isOk = false := by
    decide +kernel
  have misfit : ¬outside.Fits tiny.config.limits := by
    rw [← accepts, refused]
    exact Bool.false_ne_true
  exact ⟨rfl, rfl, by decide +kernel, by decide +kernel, bounds, misfit, unchanged refused⟩

/-- An image of one instruction and three bytes is loaded where one instruction fits. -/
theorem not_contained_tiny :
    let image : EngineCommand := .uploadProgram ⟨List.replicate 7 0, []⟩
    tiny.board.code = [] ∧ tiny.board.data = [] ∧ image.loads = true ∧
      ¬(tiny.performAll [image]).board.code.length ≤ 4 * tiny.config.limits.code := by
  decide +kernel

end Engine

end PulseSequencer
