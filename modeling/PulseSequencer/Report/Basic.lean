import PulseSequencer.Bytes
import PulseSequencer.Number.Notation
import PulseSequencer.Number.Radix
import PulseSequencer.Table

/-
# PulseSequencer.Report.Basic -- values as trees of named parts

A report shows a value to somebody outside: a person, a log, or a program at the
other end of a wire.  It is a tree of plain data, so that whoever writes it down
chooses the notation, and no state is computed from it.

Written as JSON, every part stands on a line of its own, indented by two blanks for
each level.  Bit patterns are written as numbers, and bytes as hexadecimal text.
-/

namespace PulseSequencer

set_option autoImplicit false

inductive Report where
  | nothing
  | flag (b : Bool)
  /-- A number that every reader of numbers can hold. -/
  | number (n : Int)
  /-- An integer of up to 64 bits. -/
  | integer (n : Int)
  | real (x : Float)
  /-- A bit pattern. -/
  | word (w : UInt64)
  /-- Bit patterns of which the ends tell enough where there are many. -/
  | stream (ws : List UInt64)
  | bytes (b : Bytes)
  | text (s : String)
  | list (items : List Report)
  | record (fields : List (String × Report))
deriving Inhabited

/-- Values that have a report. -/
class Reported (α : Type) where
  report : α → Report

export Reported (report)

instance {α : Type} (a : α) [Reported α] : CoeT α a Report := ⟨report a⟩

namespace Report

variable {α β : Type}

instance : Reported Report := ⟨id⟩
instance : Reported Unit := ⟨fun _ => .nothing⟩
instance : Reported Bool := ⟨.flag⟩
instance : Reported Nat := ⟨fun n => .number n⟩
instance : Reported Int := ⟨.integer⟩
instance : Reported Float := ⟨.real⟩
instance : Reported UInt64 := ⟨.word⟩
instance : Reported UInt32 := ⟨fun w => .word w.toUInt64⟩
instance : Reported String := ⟨.text⟩
instance [Reported α] : Reported (List α) := ⟨fun xs => .list (xs.map report)⟩
instance : Reported Bytes := ⟨.bytes⟩
instance [Reported α] : Reported (Option α) := ⟨fun x => (x.map report).getD .nothing⟩
instance [Reported α] [Reported β] : Reported (α × β) := ⟨fun (a, b) => .list [a, b]⟩
instance [Reported α] [Reported β] : Reported (Table α β) := ⟨fun t => report t.entries⟩

/-- A list of different things. -/
def row (items : List Report) : Report := .list items

/-- The name of the constructor of a value, with a capital letter. -/
def tag [Repr α] (x : α) : String :=
  let name := (reprStr x).toList.takeWhile fun c => c != ' ' && c != '\n'
  (String.ofList (name.reverse.takeWhile (· != '.')).reverse).capitalize

/-- The fields of a record, and nothing of other reports. -/
def fields : Report → List (String × Report)
  | .record fields => fields
  | _ => []

/-- A record with further fields. -/
def extend (r : Report) (more : List (String × Report)) : Report := .record (r.fields ++ more)

end Report

end PulseSequencer

namespace PulseSequencer.Report

/-- The two characters, or six, that stand for a character in a quoted text. -/
def jsonChar (c : Char) : List Char :=
  if c = '"' then ['\\', '"']
  else if c = '\\' then ['\\', '\\']
  else if c = '\n' then ['\\', 'n']
  else if c = '\r' then ['\\', 'r']
  else if c = '\t' then ['\\', 't']
  else if c = '\x08' then ['\\', 'b']
  else if c = '\x0c' then ['\\', 'f']
  else if c.toNat < 0x20 then '\\' :: 'u' :: hexDigits 4 c.toNat
  else [c]

def jsonText (s : String) : String :=
  "\"" ++ String.ofList (s.toList.flatMap jsonChar) ++ "\""

/-- Parts between two brackets; `indent` is the indentation of the closing one. -/
def bracketed (opening closing indent : String) (parts : List String) : String :=
  if parts.isEmpty then opening ++ closing
  else
    let line := "\n" ++ indent ++ "  "
    opening ++ line ++ ("," ++ line).intercalate parts ++ "\n" ++ indent ++ closing

mutual

def prettyAt (indent : String) : Report → String
  | .nothing => "null"
  | .flag b => toString b
  | .number n | .integer n => toString n
  | .real x => if x.isFinite then Number.quoted x else "null"
  | .word w => toString w.toNat
  | .stream ws => bracketed "[" "]" indent (ws.map fun w => toString w.toNat)
  | .bytes b => jsonText (String.ofList (b.flatMap fun x => hexDigits 2 x.toNat))
  | .text s => jsonText s
  | .list items => bracketed "[" "]" indent (prettyItems (indent ++ "  ") items)
  | .record fields => bracketed "\x7b" "\x7d" indent (prettyFields (indent ++ "  ") fields)

def prettyItems (indent : String) : List Report → List String
  | [] => []
  | item :: rest => prettyAt indent item :: prettyItems indent rest

def prettyFields (indent : String) : List (String × Report) → List String
  | [] => []
  | (name, value) :: rest =>
      (jsonText name ++ ": " ++ prettyAt indent value) :: prettyFields indent rest

end

def pretty (r : Report) : String := prettyAt "" r

end PulseSequencer.Report
