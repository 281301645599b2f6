import PulseSequencer.CommandLine.Run
import PulseSequencer.Report.Errors

/-
# PulseSequencer.Main -- the program

All that a command reads is fetched before it runs: its input and, from one file to
the next, what they insert.
-/

namespace PulseSequencer

set_option autoImplicit false

namespace Console

/-- The fault that the system gives a number, of either sign, and a text. -/
def faultOfCode (code : UInt32) (details : String) : FileFault :=
  let number := code.toInt32.toInt.natAbs
  (FileFault.ofCode? number).getD
    (.other (details.capitalize ++ " (os error " ++ toString number ++ ")"))

def faultOf : IO.Error → FileFault
  | .noFileOrDirectory _ code details | .interrupted _ code details
  | .permissionDenied _ code details | .inappropriateType _ code details
  | .invalidArgument _ code details | .alreadyExists _ code details
  | .resourceExhausted _ code details | .noSuchThing _ code details
  | .resourceBusy code details | .otherError code details => faultOfCode code details
  | error => .other (toString error)

def attempt {α : Type} (action : IO α) : IO (Except FileFault α) := do
  match ← action.toBaseIO with
  | .ok a => return .ok a
  | .error error => return .error (faultOf error)

def readFile (path : String) : IO (Except FileFault Bytes) :=
  attempt (return (← IO.FS.readBinFile path).toList)

def writeFile (path : String) (bytes : Bytes) : IO (Except FileFault Unit) :=
  attempt (IO.FS.writeBinFile path ⟨bytes.toArray⟩)

/-- What is known of files, by the paths under which they were asked for. -/
abbrev Fetched := Table String (Except FileFault Bytes)

/-- Fetches files and all that they make the command read. -/
partial def fetch (c : Command) (known : Fetched) : List String → IO Fetched
  | [] => return known
  | path :: rest => do
      if known.contains path then fetch c known rest
      else
        let got ← readFile path
        let more := match got >>= textOfBytes with
          | .ok text => c.inserted text
          | .error _ => []
        fetch c (known.insert path got) (more ++ rest)

def view (known : Fetched) : FileView :=
  { read := fun path => (known.get? path).getD (.error .missing)
    lines := lineCount (known.values.filterMap Except.toOption) }

/-- Tells notices, the detailed ones only if that was asked for. -/
def tell (all : Bool) (notices : List Notice) : IO Unit := do
  for n in notices do
    if all || n.severity != .debug then
      IO.eprintln ("[" ++ Report.severityName n.severity ++ " " ++
        Report.reporterPath n.reporter ++ "] " ++ n.text)

def answer (arguments : List String) : IO Answer := do
  match Request.ofArguments false arguments with
  | .error refusal => return refusal.answer
  | .ok request =>
      let known ← fetch request.command Table.empty request.command.input?.toList
      let a ← request.run (view known) writeFile
      tell request.diagnostics a.notices
      return a

end Console

end PulseSequencer

/-- Runs a command line, prints its answer and ends with its code. -/
def main (arguments : List String) : IO UInt32 := do
  let a ← PulseSequencer.Console.answer arguments
  IO.print a.output
  IO.eprint a.complaint
  return a.code
