import PulseSequencer.Ppp.Compiler
import PulseSequencer.Report.Values

/-
# PulseSequencer.Report.Sources -- reports on ppp sources and what they are compiled to
-/

namespace PulseSequencer.Report

set_option autoImplicit false

open Ppp

instance : Reported Position := ⟨fun p => row [p.line, p.column]⟩

def tokenKind : TokenKind → String
  | .name _ => "name"
  | .number => "number"
  | .text => "str"
  | .mark _ => "op"
  | .newline => "newline"
  | .indent => "indent"
  | .dedent => "dedent"
  | .eof => "eof"

/-- A token with the text of the source that it stands for. -/
def token (source : String) (t : Token) : Report :=
  row [tokenKind t.kind, t.position.line, t.position.column,
    String.ofList (slice source.toList t.start t.stop)]

instance : Reported SourceFormula :=
  ⟨fun f => .record [("text", f.text), ("start", f.start), ("expr", f.formula)]⟩

instance : Reported Argument := ⟨fun a => row [a.keyword, a.value]⟩

def placedAt (p : Position) (fields : List (String × Report)) : Report :=
  .record (("at", report p) :: fields)

mutual

def statement : Statement → Report
  | .assign p target op value =>
      placedAt p [("assign", target), ("op", op.map tag), ("value", value)]
  | .cond p bs otherwise =>
      placedAt p [("if", .list (branches bs)), ("else", .list (block otherwise))]
  | .loop p condition body => placedAt p [("while", condition), ("body", .list (block body))]
  | .call p name arguments => placedAt p [("call", name), ("args", arguments)]
  | .return p value => placedAt p [("return", value)]
  | .pass p => placedAt p [("pass", true)]
  | .assembly p verbatim => placedAt p [("asm", verbatim)]

def branches : List (SourceFormula × List Statement) → List Report
  | [] => []
  | (condition, body) :: rest => row [condition, .list (block body)] :: branches rest

def block : List Statement → List Report
  | [] => []
  | s :: rest => statement s :: block rest

end

instance : Reported Statement := ⟨statement⟩

def declaration (d : Declaration) : Report :=
  placedAt d.position [("declare", tag d.kind), ("name", d.name), ("value", d.value),
    ("attributes", d.attributes.map fun (a, p) => row [a, p.line, p.column]),
    ("encoding", d.encoding)]

instance : Reported Item :=
  ⟨fun i => match i with
    | .declaration d => declaration d
    | .procedure p =>
        placedAt p.position [("def", p.name), ("params", p.parameters), ("body", p.body)]
    | .statement s => statement s⟩

instance : Reported Builtin :=
  ⟨fun b => .record [("name", b.name),
    ("params", b.params.map fun p => row [p.name, tag p.kind, p.omissible]),
    ("template", b.template.map TemplateLine.text),
    ("yields_value", b.use == .value), ("condition_only", b.use == .condition)]⟩

instance : Reported Symbol :=
  ⟨fun s => match s with
    | .cell kind slot name => row ["variable", tag kind, slot, name]
    | .constant value slot => row ["constant", value, slot]
    | .procedure cells => row ["procedure", cells]
    | .builtin b => row ["builtin", b.name]⟩

instance : Reported Assembly :=
  ⟨fun a => .record [("assembly", a.text), ("lines", a.lineLookup)]⟩

end PulseSequencer.Report
