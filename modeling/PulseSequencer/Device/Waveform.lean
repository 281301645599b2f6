import PulseSequencer.Bytes
import PulseSequencer.Device.Error
import PulseSequencer.Document.Yaml.Record
import PulseSequencer.Encoding.Word
import PulseSequencer.Number.Binary
import PulseSequencer.Number.Reader

/-
# PulseSequencer.Device.Waveform -- what goes into the large memory

A waveform is a list of points, one word each, and edges that name parts of it by
their first and last line.
-/

namespace PulseSequencer

set_option autoImplicit false

structure WaveformPoint where
  value : Float
  unit : String := ""
  encoding : Option String := none

/-- A part of a waveform. -/
structure WaveformEdge where
  startLine : UInt64
  stopLine : UInt64
  /-- The idle cycles between two lines. -/
  idleCount : UInt64
deriving Repr, DecidableEq

structure Waveform where
  points : List WaveformPoint
  edges : List WaveformEdge := []

namespace WaveformPoint

def encode (p : WaveformPoint) : Except EncodingError UInt64 := do
  let value ← (Quantity.ofText p.value p.unit).mapError .unit
  PulseSequencer.encode value p.encoding

end WaveformPoint

/-- Bytes of a line. -/
def lineSize : UInt64 := 8

/-- The first byte of an edge, and the one behind its last. -/
def WaveformEdge.byteRange (e : WaveformEdge) : UInt64 × UInt64 :=
  (e.startLine * lineSize, (e.stopLine + 1) * lineSize)

namespace Waveform

/-- The bytes of all points. -/
def image (w : Waveform) : Except EncodingError Bytes := do
  return bytesOfWords (← w.points.mapM WaveformPoint.encode)

/-! ## Documents -/

/-- A number with a point or an exponent, or the name of one that is not finite. -/
def realOf? (text : List Char) : Option Float :=
  match text with
  | '+' :: '+' :: _ | '+' :: '-' :: _ => none
  | _ =>
      let unsigned := match text with
        | '+' :: rest => rest
        | text => text
      if [".inf", ".Inf", ".INF"].contains (String.ofList unsigned) then some (1.0 / 0.0)
      else if ["-.inf", "-.Inf", "-.INF"].contains (String.ofList text) then some (-1.0 / 0.0)
      else if [".nan", ".NaN", ".NAN"].contains (String.ofList text) then some (0.0 / 0.0)
      else (Number.readFloat? unsigned).filter Float.isFinite

/-- The digits of an unsigned number to another base. -/
def digitsOf? (base : Nat) (digits : List Char) : Option Nat :=
  let value (c : Char) : Nat :=
    if c.isDigit then c.toNat - 48
    else if c.isAlpha then c.toLower.toNat - 87 else base
  if digits ≠ [] ∧ digits.all fun c => value c < base then
    some (digits.foldl (fun n c => base * n + value c) 0)
  else none

/-- An unsigned number of 64 bits; one with leading zeros is a text. -/
def wordOf? (text : List Char) : Option UInt64 :=
  let unsigned := match text with
    | '+' :: rest => rest
    | text => text
  let n := match unsigned with
    | '0' :: 'x' :: digits => digitsOf? 16 digits
    | '0' :: 'o' :: digits => digitsOf? 8 digits
    | '0' :: 'b' :: digits => digitsOf? 2 digits
    | '0' :: _ :: _ => none
    | digits => digitsOf? 10 digits
  (n.filter (· < pow2 64)).map UInt64.ofNat

def realField (node : Yaml.Node) : Yaml.Reading Float := do
  realOf? (← (← Yaml.scalar node).numeral? "float")

def wordField (node : Yaml.Node) : Yaml.Reading UInt64 := do
  wordOf? (← (← Yaml.scalar node).numeral? "int")

def pointOf (node : Yaml.Node) : Yaml.Reading WaveformPoint := do
  let r ← Yaml.record node
  return { value := ← r.field realField "value"
           unit := ← r.fieldOr Yaml.text "" "unit"
           encoding := ← r.fieldOr Yaml.optionalText none "encoding" }

def edgeOf (node : Yaml.Node) : Yaml.Reading WaveformEdge := do
  let r ← Yaml.record node
  return { startLine := ← r.field wordField "start_line"
           stopLine := ← r.field wordField "stop_line"
           idleCount := ← r.field wordField "idle_count" }

def ofNode (node : Yaml.Node) : Yaml.Reading Waveform := do
  let r ← Yaml.record node
  return { points := ← r.field (Yaml.items pointOf) "points"
           edges := ← r.fieldOr (Yaml.items edgeOf) [] "edges" }

/-- Whether an edge lies in a waveform of so many lines. -/
def holds (lines : Nat) (e : WaveformEdge) : Bool :=
  e.startLine ≤ e.stopLine && decide (e.stopLine.toNat < lines)

/-- Reads a waveform whose edges all lie in it. -/
def parse (text : String) : Except ConfigurationFault Waveform := do
  match (Yaml.Document.parse? text).bind (Yaml.Document.read? ofNode) with
  | none => throw .unreadableWaveform
  | some w =>
      match w.edges.find? fun e => !holds w.points.length e with
      | some e => throw (.edgeRange e.startLine e.stopLine w.points.length)
      | none => return w

end Waveform

end PulseSequencer
