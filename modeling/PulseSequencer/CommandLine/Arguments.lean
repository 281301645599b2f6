import PulseSequencer.Table
import PulseSequencer.Text.Blank

/-
# PulseSequencer.CommandLine.Arguments -- what a command line asks for

A command has one operand and some options, which may come in any order and each
once.  An option with a value is written `--name VALUE`, `--name=VALUE`, or with one
letter as `-n VALUE`, `-nVALUE` or `-n=VALUE`.  Whatever begins with a dash is an
option, except for a dash alone and for what follows `--`.

Arguments are read from the left, and the first that is wrong, or that asks for
help, decides.
-/

namespace PulseSequencer

set_option autoImplicit false

/-- What stands for an operand or for the value of an option. -/
inductive ValueForm where
  | text
  /-- A path is never empty. -/
  | path
deriving Repr, DecidableEq

/-- An option; one without a value is a switch. -/
structure OptionForm where
  long : String
  short : Option Char := none
  value : Option ValueForm := none
  about : String
deriving Repr, DecidableEq

structure CommandForm where
  name : String
  about : String
  operand : String
  operandForm : ValueForm
  options : List OptionForm
deriving Repr, DecidableEq

/-- Why a command line cannot be understood. -/
inductive Misuse where
  | missingCommand
  | unknownCommand (name : String)
  | unknownOption (option : String)
  | missingValue (option : String)
  | strayValue (option : String)
  | repeated (option : String)
  | missingOperand (operand : String)
  | strayOperand (text : String)
  | emptyPath (name : String)
deriving Repr, DecidableEq

def Misuse.message : Misuse → String
  | .missingCommand => "a command is required"
  | .unknownCommand name => "unrecognized command '" ++ name ++ "'"
  | .unknownOption option => "unexpected argument '" ++ option ++ "'"
  | .missingValue option => "'" ++ option ++ "' needs a value"
  | .strayValue option => "'" ++ option ++ "' takes no value"
  | .repeated option => "'" ++ option ++ "' cannot be used multiple times"
  | .missingOperand operand => "<" ++ operand ++ "> was not provided"
  | .strayOperand text => "unexpected argument '" ++ text ++ "'"
  | .emptyPath name => "a path is required for '" ++ name ++ "'"

/-- What help can be asked on. -/
inductive HelpTopic where
  | program
  | command (form : CommandForm)
  /-- The command that asks for help. -/
  | help
deriving Repr, DecidableEq

/-- What keeps a command line from naming something to do. -/
inductive Refusal where
  | misuse (misuse : Misuse)
  | help (topic : HelpTopic)
  | version
deriving Repr, DecidableEq

/-- What has been read of the arguments of a command. -/
structure Settings where
  operand : Option String := none
  /-- Options that were given, by their long names; a switch has an empty value. -/
  given : Table String String := Table.empty

def Settings.isSet (s : Settings) (long : String) : Bool := s.given.contains long

/-- An argument, or the beginning of one. -/
inductive ArgumentPart where
  | operand (text : String)
  | long (name : String) (value : Option String)
  | short (letter : Char) (rest : String)
  | endOfOptions
deriving Repr, DecidableEq

namespace ArgumentPart

/-- What a first look tells about an argument. -/
def ofText (text : String) : ArgumentPart :=
  match text.toList with
  | ['-', '-'] => .endOfOptions
  | '-' :: '-' :: rest =>
      match Text.splitFirst? (· = '=') rest with
      | some (name, value) => .long (String.ofList name) (some (String.ofList value))
      | none => .long (String.ofList rest) none
  | '-' :: letter :: rest => .short letter (String.ofList rest)
  | _ => .operand text

/-- The value that is written together with the letter of an option. -/
def joinedValue (rest : String) : Option String :=
  match rest.toList with
  | [] => none
  | '=' :: value => some (String.ofList value)
  | _ => some rest

end ArgumentPart

def ValueForm.check (form : ValueForm) (name value : String) : Except Refusal Unit :=
  if form = .path ∧ value = "" then .error (.misuse (.emptyPath name)) else .ok ()

namespace CommandForm

def findLong? (form : CommandForm) (name : String) : Option OptionForm :=
  form.options.find? fun o => o.long == name

def findShort? (form : CommandForm) (letter : Char) : Option OptionForm :=
  form.options.find? fun o => o.short == some letter

def setOperand (form : CommandForm) (s : Settings) (text : String) :
    Except Refusal Settings := do
  if s.operand.isSome then throw (.misuse (.strayOperand text))
  form.operandForm.check form.operand text
  return { s with operand := some text }

def setOption (o : OptionForm) (s : Settings) (value : String) : Except Refusal Settings := do
  if s.isSet o.long then throw (.misuse (.repeated o.long))
  if let some form := o.value then form.check o.long value
  return { s with given := s.given.insert o.long value }

/-- The option that an argument begins with, as it is written, and a value that is
written together with it. -/
def option? (form : CommandForm) : ArgumentPart →
    Except Refusal (Option (OptionForm × Option String))
  | .long "help" none | .short 'h' _ => .error (.help (.command form))
  | .long name value =>
      match form.findLong? name with
      | some o => .ok (some (o, value))
      | none => .error (.misuse (.unknownOption ("--" ++ name)))
  | .short letter rest =>
      match form.findShort? letter with
      | some o => .ok (some (o, ArgumentPart.joinedValue rest))
      | none => .error (.misuse (.unknownOption (String.ofList ['-', letter])))
  | .operand _ | .endOfOptions => .ok none

/-- Reads arguments.  `waiting` is an option that still needs its value. -/
def readSettings (form : CommandForm) (s : Settings) :
    (waiting : Option OptionForm) → List String → Except Refusal Settings
  | some o, [] => .error (.misuse (.missingValue o.long))
  | none, [] => .ok s
  | some o, text :: rest =>
      match ArgumentPart.ofText text with
      | .operand value => do readSettings form (← setOption o s value) none rest
      | _ => .error (.misuse (.missingValue o.long))
  | none, text :: rest =>
      match ArgumentPart.ofText text with
      | .endOfOptions => rest.foldlM form.setOperand s
      | part => do
          match ← form.option? part with
          | none => readSettings form (← form.setOperand s text) none rest
          | some (o, value) =>
              match o.value, value with
              | none, none => readSettings form (← setOption o s "") none rest
              | none, some _ => throw (.misuse (.strayValue o.long))
              | some _, some value => readSettings form (← setOption o s value) none rest
              | some _, none => readSettings form s (some o) rest

end CommandForm

/-! ## The commands -/

inductive Command where
  | compile (input : String) (output : Option String)
  | assemble (input : String) (asJson : Bool) (code data : Option String)
  | disassemble (image : String)
  | encode (value : String) (encoding : Option String)
  | decode (word : String) (encoding : Option String)
  | bitfileInfo (path : String)
deriving Repr, DecidableEq

namespace Command

/-- A switch that every command has, in front of its own options. -/
def diagnosticsForm : OptionForm :=
  { long := "diagnostics", about := "Also log decoder diagnostics" }

def encodingForm : OptionForm :=
  { long := "encoding", short := some 'e', value := some .text, about := "" }

/-- A form and what a command of this form asks for. -/
structure Entry where
  form : CommandForm
  ofSettings : (operand : String) → Table String String → Command

def entry (name operand about : String) (operandForm : ValueForm) (options : List OptionForm)
    (ofSettings : String → Table String String → Command) : Entry :=
  { form := { name, about, operand, operandForm, options := diagnosticsForm :: options }
    ofSettings }

/-- All commands in the order of the help. -/
def all : List Entry :=
  [ entry "compile" "INPUT" "Compile a ppp source to assembly" .path
      [{ long := "output", short := some 'o', value := some .path
         about := "Write the assembly here instead of stdout" }]
      fun input given => .compile input (given.get? "output"),
    entry "assemble" "INPUT" "Assemble a pulse program and print its listing" .path
      [{ long := "json", about := "Print the listing and variables as JSON" },
       { long := "code", value := some .path
         about := "Write the instruction image to this file" },
       { long := "data", value := some .path
         about := "Write the data image to this file" }]
      fun input given =>
        .assemble input (given.contains "json") (given.get? "code") (given.get? "data"),
    entry "disassemble" "IMAGE" "Print the mnemonics of an instruction image" .path []
      fun image _ => .disassemble image,
    entry "encode" "VALUE" "Encode a value such as \"10 MHz\" into a data word" .text
      [encodingForm] fun value given => .encode value (given.get? "encoding"),
    entry "decode" "WORD" "Decode a data word, given in hex or decimal" .text
      [encodingForm] fun word given => .decode word (given.get? "encoding"),
    entry "bitfile-info" "PATH" "Show the header and MD5 of a firmware bitfile" .path []
      fun path _ => .bitfileInfo path ]

def find? (name : String) : Option Entry := all.find? fun e => e.form.name == name

def Entry.read (e : Entry) (arguments : List String) : Except Refusal (Command × Bool) := do
  let s ← e.form.readSettings {} none arguments
  match s.operand with
  | none => throw (.misuse (.missingOperand e.form.operand))
  | some operand => return (e.ofSettings operand s.given, s.isSet diagnosticsForm.long)

end Command

/-- A command, and whether everything that happens is to be told. -/
structure Request where
  command : Command
  diagnostics : Bool
deriving Repr, DecidableEq

namespace Request

/-- The help that `help` and the names behind it ask for. -/
def helpOn : List String → Refusal
  | [] => .help .program
  | ["help"] => .help .help
  | [name] =>
      match Command.find? name with
      | some e => .help (.command e.form)
      | none => .misuse (.unknownCommand name)
  | name :: other :: _ =>
      .misuse (.unknownCommand
        (if name = "help" ∨ (Command.find? name).isSome then other else name))

/-- Reads the options before the command, and then the command. -/
def ofArguments (diagnostics : Bool) : List String → Except Refusal Request
  | [] => .error (.misuse .missingCommand)
  | text :: rest =>
      match ArgumentPart.ofText text with
      | .operand "help" => .error (helpOn rest)
      | .operand name =>
          match Command.find? name with
          | none => .error (.misuse (.unknownCommand name))
          | some e => do
              let (command, more) ← e.read rest
              return { command, diagnostics := diagnostics || more }
      | .long "help" none | .short 'h' _ => .error (.help .program)
      | .long "version" none | .short 'V' _ => .error .version
      | .long name value =>
          if name ≠ Command.diagnosticsForm.long then
            .error (.misuse (.unknownOption ("--" ++ name)))
          else if value.isSome then .error (.misuse (.strayValue name))
          else if diagnostics then .error (.misuse (.repeated name))
          else ofArguments true rest
      | .short letter _ => .error (.misuse (.unknownOption (String.ofList ['-', letter])))
      | .endOfOptions => .error (.misuse .missingCommand)

end Request

end PulseSequencer
