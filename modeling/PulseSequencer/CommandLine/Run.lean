import PulseSequencer.CommandLine.Arguments
import PulseSequencer.CommandLine.Files
import PulseSequencer.Device.Bitfile
import PulseSequencer.Device.Error
import PulseSequencer.Number.Binary
import PulseSequencer.Number.Radix
import PulseSequencer.Ppp.Compiler
import PulseSequencer.Program.Assembler
import PulseSequencer.Program.Basic
import PulseSequencer.Report.Basic

/-
# PulseSequencer.CommandLine.Run -- what the commands do

A command reads all its files first.  Then it either fails, or it has texts to
print and files to write.  Files are written in order, up to the first that cannot
be written.
-/

namespace PulseSequencer

set_option autoImplicit false

/-- Why a command failed; the cause tells more about the message. -/
structure CommandFailure where
  message : String
  cause : Option String := none
deriving Repr, DecidableEq

/-- The failure as it is shown; the lines of the cause are indented. -/
def CommandFailure.text (f : CommandFailure) : String :=
  let indented (cause : String) : String :=
    "    " ++ String.ofList (cause.toList.flatMap fun c =>
      if c = '\n' then "\n    ".toList else [c])
  "Error: " ++ f.message ++
    (f.cause.map fun cause => "\n\nCaused by:\n" ++ indented cause).getD "" ++ "\n"

/-- What is left to do when a command has succeeded. -/
structure Outcome where
  output : String
  files : List (String × Bytes) := []
  notices : List Notice := []

/-- What the world sees of a run. -/
structure Answer where
  code : UInt32
  output : String
  complaint : String
  notices : List Notice := []
deriving Repr, DecidableEq

abbrev Attempt (α : Type) := Except CommandFailure α

namespace Attempt

variable {α ε : Type}

/-- Fails with the message alone. -/
def plain (message : ε → String) (r : Except ε α) : Attempt α :=
  r.mapError fun e => { message := message e }

/-- Fails with the message as the cause of something else. -/
def within (what : String) (message : ε → String) (r : Except ε α) : Attempt α :=
  r.mapError fun e => { message := what, cause := some (message e) }

end Attempt

/-- A text with the end of its last line. -/
def closedLine (text : String) : String := text ++ "\n"

/-! ## Words -/

/-- A data word in decimal, or in hexadecimal behind `0x`, where underscores may
stand between the digits. -/
def readDataWord (text : List Char) : Except Number.DigitsFault Nat :=
  let hexadecimal (digits : List Char) :=
    Number.readBase 16 (pow2 64) (digits.filter (· ≠ '_'))
  match text with
  | '0' :: 'x' :: digits | '0' :: 'X' :: digits => hexadecimal digits
  | _ => Number.readBase 10 (pow2 64) text

def encodeText (value : String) (encoding : Option String) : Attempt String := do
  let q ← Attempt.plain UnitError.message (Quantity.parse value)
  let word ← Attempt.plain EncodingError.message (encode q encoding)
  return hexText word.toNat

def decodeText (text : String) (encoding : Option String) : Attempt String := do
  let trimmed := Text.trim text.toList
  let word ← Attempt.within ("'" ++ String.ofList trimmed ++ "' is not a data word")
    Number.DigitsFault.message (readDataWord trimmed)
  let q ← Attempt.plain EncodingError.message (decodeQuantity (UInt64.ofNat word) encoding)
  return q.text

/-! ## Programs -/

/-- Fills a text up with blanks to a width. -/
def padded (width : Nat) (text : String) : String :=
  text ++ String.ofList (List.replicate (width - text.length) ' ')

/-- A number in a column of a listing. -/
def hexColumn (width n : Nat) : String := String.ofList (hexDigits width n)

/-- The word that data memory has for a variable. -/
def Program.wordOf (p : Program) (v : Variable) : UInt64 := p.data.getD v.slot 0

def listingLine (r : ListingRow) : String :=
  closedLine ("  ".intercalate [hexColumn 4 r.address, hexColumn 8 r.word.toNat,
    padded 16 r.mnemonic ++ " " ++ padded 12 r.operand ++ " " ++ r.source])

def variableLine (p : Program) (v : Variable) : String :=
  closedLine ("  ".intercalate [hexColumn 4 v.address, hexColumn 16 (p.wordOf v).toNat,
    v.name ++ " = " ++ v.value.text])

/-- All instructions, and then all variables. -/
def listingText (p : Program) : String :=
  String.join (p.listing.map listingLine ++ p.vars.values.map (variableLine p))

def listingReport (p : Program) : Report :=
  .record
    [("code", p.listing.map fun r =>
        Report.record [("address", r.address), ("mnemonic", r.mnemonic),
          ("operand", r.operand), ("source", r.source), ("word", r.word)]),
     ("variables", p.vars.values.map fun v =>
        Report.record [("address", v.address), ("encoding", v.encoding), ("name", v.name),
          ("slot", v.slot), ("type", v.type.name), ("value", v.value.text),
          ("word", p.wordOf v)])]

/-- The files that can be inserted into a program at a path. -/
def FileView.library (files : FileView) (path : String) : Library :=
  { read := fun name => (files.readText (FilePath.beside path name)).mapError FileFault.message
    size := files.lines }

def compileFile (files : FileView) (path : String) : Attempt Ppp.Assembly := do
  let source ← Attempt.within ("Reading " ++ path) FileFault.message (files.readText path)
  Attempt.within ("Compiling " ++ path) Ppp.CompileError.text (Ppp.compile source)

/-- Sources of this kind are compiled first. -/
def isCompiled (path : String) : Bool := FilePath.suffix? path == some "ppp"

/-- Compiles a program and assembles it under the name of its file. -/
def assembleCompiled (files : FileView) (path : String) : Attempt (Program × List Notice) := do
  let source ← Attempt.plain FileFault.message (files.readText path)
  let assembly ← Attempt.within ("Compiling " ++ path) Ppp.CompileError.text (Ppp.compile source)
  let (p, notices) ← Attempt.plain ProgramError.message
    ((default : Program).load ((FilePath.name? path).getD "") assembly.text Library.empty)
  return ({ p with lineLookup := assembly.lineLookup }, notices)

/-- Assembles a program; a file that cannot be read fails in front of its lines. -/
def assembleFile (files : FileView) (path : String) : Attempt (Program × List Notice) := do
  let unreadable (fault : FileFault) : String :=
    (LineError.mk path 0 "" (.unreadable fault.message)).message
  let source ← Attempt.plain unreadable (files.readText path)
  Attempt.plain ProgramError.message
    ((default : Program).load ((FilePath.name? path).getD path) source (files.library path))

def assemblePath (files : FileView) (path : String) : Attempt (Program × List Notice) :=
  if isCompiled path then assembleCompiled files path else assembleFile files path

/-! ## Bitfiles -/

def bitfileText (info : BitfileInfo) : String :=
  "\n".intercalate ["design: " ++ info.design, "part: " ++ info.part,
    "built: " ++ info.date ++ " " ++ info.time,
    "bitstream: " ++ toString info.bitstreamLength ++ " bytes", "md5: " ++ info.md5]

def readBitfile (files : FileView) (path : String) : Attempt BitfileInfo := do
  let image ← Attempt.within ("Reading " ++ path) FileFault.message (files.read path)
  Attempt.within ("Reading " ++ path)
    (fun fault => (DeviceError.hardware (.bitfile fault)).message) (Bitfile.parse image)

/-! ## Commands -/

def Command.perform (files : FileView) : Command → Attempt Outcome
  | .compile input output => do
      let assembly ← compileFile files input
      match output with
      | some path => return { output := "", files := [(path, Text.utf8 assembly.text)] }
      | none => return { output := closedLine assembly.text }
  | .assemble input asJson code data => do
      let (p, notices) ← assemblePath files input
      let images := (code.map fun path => (path, p.codeImage)).toList ++
        (data.map fun path => (path, p.dataImage)).toList
      let text := if asJson then (listingReport p).pretty else listingText p
      return { output := closedLine text, files := images, notices }
  | .disassemble path => do
      let image ← Attempt.plain FileFault.message (files.read path)
      let lines ← Attempt.plain ImageFault.message (PulseSequencer.disassemble image)
      return { output := closedLine ("\n".intercalate lines) }
  | .encode value encoding => return { output := closedLine (← encodeText value encoding) }
  | .decode word encoding => return { output := closedLine (← decodeText word encoding) }
  | .bitfileInfo path => return { output := closedLine (bitfileText (← readBitfile files path)) }

/-- The file that a command begins with. -/
def Command.input? : Command → Option String
  | .compile path _ | .assemble path .. | .disassemble path | .bitfileInfo path => some path
  | .encode .. | .decode .. => none

/-- The files that a text makes a command read besides. -/
def Command.inserted (c : Command) (text : String) : List String :=
  match c with
  | .assemble path .. =>
      if isCompiled path then []
      else (SourceSet.numbered text).filterMap fun (_, chars) =>
        (SourceSet.inserted? chars).map (FilePath.beside path)
  | _ => []

/-! ## Help -/

def programName : String := "ionpulse"

def versionText : String := closedLine (programName ++ " 0.9.0")

/-- Names and what they mean, in two columns. -/
def columns (entries : List (String × String)) : String :=
  let width := (entries.map fun e => e.1.length).foldl max 0
  String.join (entries.map fun e => closedLine ("  " ++ padded width e.1 ++ "  " ++ e.2))

def OptionForm.usage (o : OptionForm) : String :=
  (o.short.elim "    " fun c => String.ofList ['-', c, ',', ' ']) ++ "--" ++ o.long ++
    (o.value.elim "" fun _ => " <" ++ o.long.toUpper ++ ">")

def helpOption : String × String := ("-h, --help", "Print help")

def CommandForm.help (form : CommandForm) : String :=
  closedLine (form.about ++ "\n\nUsage: " ++ programName ++ " " ++ form.name ++ " [OPTIONS] <" ++
    form.operand ++ ">\n\nArguments:") ++ columns [("<" ++ form.operand ++ ">", "")] ++
    "\nOptions:\n" ++
    columns (form.options.map (fun o => (o.usage, o.about)) ++ [helpOption])

def aboutHelp : String := "Print this message or the help of the given subcommand(s)"

def programHelp : String :=
  closedLine ("Pulse-program tools for the FPGA pulser\n\nUsage: " ++ programName ++
    " [OPTIONS] <COMMAND>\n\nCommands:") ++
    columns (Command.all.map (fun e => (e.form.name, e.form.about)) ++ [("help", aboutHelp)]) ++
    "\nOptions:\n" ++
    columns [(Command.diagnosticsForm.usage, Command.diagnosticsForm.about), helpOption,
      ("-V, --version", "Print version")]

def HelpTopic.text : HelpTopic → String
  | program => programHelp
  | command form => form.help
  | help =>
      closedLine (aboutHelp ++ "\n\nUsage: " ++ programName ++ " help [COMMAND]...\n\nArguments:") ++
        columns [("[COMMAND]...", "Print help for the subcommand(s)")]

/-- A command line that cannot be understood has the code 2. -/
def Refusal.answer : Refusal → Answer
  | .misuse m => { code := 2, output := "", complaint := "error: " ++ closedLine m.message }
  | .help topic => { code := 0, output := topic.text, complaint := "" }
  | .version => { code := 0, output := versionText, complaint := "" }

/-! ## Runs -/

def CommandFailure.answer (f : CommandFailure) (notices : List Notice) : Answer :=
  { code := 1, output := "", complaint := f.text, notices }

/-- Writes the files of an outcome.  A command has nothing to print where a file
could not be written. -/
def Outcome.finish {m : Type → Type} [Monad m] (write : String → Bytes → m (Except FileFault Unit))
    (o : Outcome) : m Answer := go o.files
where
  go : List (String × Bytes) → m Answer
    | [] => return { code := 0, output := o.output, complaint := "", notices := o.notices }
    | (path, bytes) :: rest => do
        match ← write path bytes with
        | .ok () => go rest
        | .error fault => return ({ message := fault.message } : CommandFailure).answer o.notices

/-- Performs a command on files that can be read, and writes its files. -/
def Request.run {m : Type → Type} [Monad m] (files : FileView)
    (write : String → Bytes → m (Except FileFault Unit)) (r : Request) : m Answer :=
  match r.command.perform files with
  | .error failure => return failure.answer []
  | .ok outcome => outcome.finish write

/-- Writes a file of the tree that is the state. -/
def FileTree.put (path : String) (bytes : Bytes) : StateM FileTree (Except FileFault Unit) :=
  fun t => match t.write path bytes with
    | .ok t => (.ok (), t)
    | .error fault => (.error fault, t)

/-- Runs a command line in a tree of files. -/
def FileTree.run (t : FileTree) (arguments : List String) : Answer × FileTree :=
  match Request.ofArguments false arguments with
  | .error refusal => (refusal.answer, t)
  | .ok request => (request.run t.view FileTree.put).run t

end PulseSequencer
