import PulseSequencer.Program.Context
import PulseSequencer.Program.Basic
import PulseSequencer.Report.Values

/-
# PulseSequencer.Report.Programs -- reports on programs and contexts
-/

namespace PulseSequencer.Report

set_option autoImplicit false

instance : Reported Variable :=
  ⟨fun v => .record [("name", v.name), ("type", v.type.name), ("unit", v.unit),
    ("encoding", v.encoding), ("value", v.value), ("mask", v.mask), ("slot", v.slot),
    ("address", v.address), ("enabled", v.enabled), ("comment", v.comment),
    ("expression", v.expression)]⟩

instance : Reported SourceLine := ⟨fun l => row [l.file, l.line, l.text]⟩

instance : Reported SourceSet :=
  ⟨fun s => .record [("files", s.files.keys), ("lines", s.lines.toList)]⟩

instance : Reported SourceLocation := ⟨fun l => row [l.file, l.line, l.compiledLine]⟩

instance : Reported ListingRow :=
  ⟨fun r => row [r.address, r.word, r.mnemonic, r.operand, r.source]⟩

instance : Reported Opcode :=
  ⟨fun op => row [op.code, op.mnemonic, tag op.operandKind]⟩

instance : Reported Instruction :=
  ⟨fun i => .record [("mnemonic", i.opcode.mnemonic), ("operand", UInt64.ofNat i.operand),
    ("kind", tag i.opcode.operandKind), ("text", i.text), ("word", i.word)]⟩

/-- Everything that is known about an assembled program. -/
instance : Reported Program :=
  ⟨fun p => .record [("code", p.codeImage), ("data", p.data), ("variables", p.vars.values),
    ("labels", p.labels), ("constants", p.constants), ("listing", p.listing),
    ("sources", p.sources.files.keys),
    ("locations", (List.range p.code.length).map p.location?)]⟩

/-- The size of a program. -/
def programSize (p : Program) : Report :=
  .record [("instructions", p.code.length), ("variables", p.vars.size)]

instance : Reported ResolvedContext :=
  ⟨fun c => .record [("values", c.values), ("disabled", c.disabled), ("shutters", c.shutters),
    ("triggers", c.triggers), ("counters", c.counters), ("source", c.sourceFile),
    ("ram", c.ramFile)]⟩

end PulseSequencer.Report
