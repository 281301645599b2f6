import PulseSequencer.Device.Bitfile
import PulseSequencer.Proofs.Bytes
import PulseSequencer.Proofs.Except
import PulseSequencer.Proofs.Text.Utf8

/-
# PulseSequencer.Proofs.Device.FirmwareHeader -- the images that have a header

A reader of a format (`Reads`) takes exactly the bytes of that format off its input, whatever
stands behind them, and finds the input too short exactly if it ends inside of such bytes.  Both
pass from two readers to one behind the other (`Reads.andThen`), so that the reader of a header is
known from those of keys, numbers and contents.  It inverts what is written of a header
(`inverts_readFields`): key bytes, lengths of 16 bits, contents, and the length of the bitstream.

Main statement: `accepted_iff_header`.
-/

namespace PulseSequencer.Bitfile

set_option autoImplicit false

/-! ## Readers and their formats -/

/-- A reader takes the bytes of a format off its input, whatever follows them, and finds the
input too short exactly if it ends inside of such bytes.  It does not ask for the bitstream. -/
structure Reads {α : Type} (reader : Reader α) (format : Bytes → α → Prop) : Prop where
  ok_iff : ∀ {bytes rest : Bytes} {value : α}, reader bytes = .ok (value, rest) ↔
    ∃ read, format read value ∧ bytes = read ++ rest
  truncated_iff : ∀ {bytes : Bytes}, reader bytes = .error .truncatedHeader ↔
    ∃ read value, format read value ∧ bytes <+: read ∧ bytes ≠ read
  header_only : ∀ {bytes : Bytes}, reader bytes ≠ .error .truncatedBitstream

/-- Reads on with a reader that may depend on what was read. -/
def andThen {α β : Type} (first : Reader α) (onward : α → Reader β) : Reader β := fun bytes =>
  first bytes >>= fun (value, rest) => onward value rest

section Readers

variable {α β : Type} {reader : Reader α} {format : Bytes → α → Prop}

theorem Reads.congr {other : Bytes → α → Prop} (reads : Reads reader format)
    (same : ∀ read value, format read value ↔ other read value) : Reads reader other where
  ok_iff := by simp only [reads.ok_iff, same, implies_true]
  truncated_iff := by simp only [reads.truncated_iff, same, implies_true]
  header_only := reads.header_only

/-- Nothing is read for a value that is there already. -/
theorem reads_value (value : α) :
    Reads (fun bytes => .ok (value, bytes)) fun read v => read = [] ∧ v = value where
  ok_iff := by simp [eq_comm]
  truncated_iff := by simp
  header_only := by simp

theorem Reads.andThen {onward : α → Reader β} {formats : α → Bytes → β → Prop}
    (reads : Reads reader format) (onwards : ∀ value, Reads (onward value) (formats value))
    (inhabited : ∀ value, ∃ read result, formats value read result) :
    Reads (andThen reader onward) fun read result => ∃ value before behind,
      format before value ∧ formats value behind result ∧ read = before ++ behind where
  ok_iff {bytes rest result} := by
    rw [Bitfile.andThen, bind_eq_ok]
    constructor
    · rintro ⟨⟨value, middle⟩, first, second⟩
      obtain ⟨before, form, rfl⟩ := reads.ok_iff.1 first
      obtain ⟨behind, form', rfl⟩ := (onwards value).ok_iff.1 second
      exact ⟨_, ⟨value, before, behind, form, form', rfl⟩, (List.append_assoc ..).symm⟩
    · rintro ⟨_, ⟨value, before, behind, form, form', rfl⟩, rfl⟩
      exact ⟨(value, behind ++ rest), reads.ok_iff.2 ⟨before, form, List.append_assoc ..⟩,
        (onwards value).ok_iff.2 ⟨behind, form', rfl⟩⟩
  truncated_iff {bytes} := by
    rw [Bitfile.andThen, bind_eq_error]
    constructor
    · rintro (cut | ⟨⟨value, middle⟩, first, cut⟩)
      · obtain ⟨before, value, form, inside, short⟩ := reads.truncated_iff.1 cut
        obtain ⟨behind, result, form'⟩ := inhabited value
        refine ⟨before ++ behind, result, ⟨value, before, behind, form, form', rfl⟩,
          inside.trans (List.prefix_append ..), fun whole => short ?_⟩
        exact inside.eq_of_length_le (by rw [whole, List.length_append]; exact Nat.le_add_right ..)
      · obtain ⟨before, form, rfl⟩ := reads.ok_iff.1 first
        obtain ⟨behind, result, form', inside, short⟩ := (onwards value).truncated_iff.1 cut
        exact ⟨before ++ behind, result, ⟨value, before, behind, form, form', rfl⟩,
          (List.prefix_append_right_inj before).2 inside,
          fun whole => short (List.append_cancel_left whole)⟩
    · rintro ⟨_, result, ⟨value, before, behind, form, form', rfl⟩, inside, short⟩
      -- the input ends inside of the first part, or behind it
      rcases List.prefix_or_prefix_of_prefix inside (List.prefix_append before behind) with
        early | late
      · by_cases whole : bytes = before
        · subst whole
          refine .inr ⟨(value, []), reads.ok_iff.2 ⟨bytes, form, (List.append_nil _).symm⟩, ?_⟩
          refine (onwards value).truncated_iff.2 ⟨behind, result, form', List.nil_prefix, ?_⟩
          rintro rfl
          exact short (List.append_nil _).symm
        · exact .inl (reads.truncated_iff.2 ⟨before, value, form, early, whole⟩)
      · obtain ⟨middle, rfl⟩ := late
        refine .inr ⟨(value, middle), reads.ok_iff.2 ⟨before, form, rfl⟩, ?_⟩
        exact (onwards value).truncated_iff.2 ⟨behind, result, form',
          (List.prefix_append_right_inj before).1 inside, fun whole => short (whole ▸ rfl)⟩
  header_only {bytes} := by
    rw [Bitfile.andThen, ne_eq, bind_eq_error]
    rintro (early | ⟨⟨value, middle⟩, _, late⟩)
    · exact reads.header_only early
    · exact (onwards value).header_only late

end Readers

/-- A reader takes what is written of some `x` off its input, and tells `value x`. -/
def Inverts {α σ : Type} (reader : Reader α) (bytes : σ → Bytes) (value : σ → α) : Prop :=
  Reads reader fun read v => ∃ x, read = bytes x ∧ v = value x

/-- Readers invert one after the other what is written one behind the other. -/
theorem Inverts.andThen {α β σ τ : Type} [Nonempty τ] {reader : Reader α} {onward : α → Reader β}
    {bytes : σ → Bytes} {value : σ → α} {more : τ → Bytes} {result : α → τ → β}
    (inverts : Inverts reader bytes value)
    (onwards : ∀ a, Inverts (onward a) more (result a)) :
    Inverts (andThen reader onward) (fun p : σ × τ => bytes p.1 ++ more p.2)
      fun p => result (value p.1) p.2 := by
  have other : τ := Classical.ofNonempty
  refine Reads.congr (Reads.andThen inverts onwards fun a => ⟨_, _, other, rfl, rfl⟩)
    fun read v => ?_
  constructor
  · rintro ⟨_, _, _, ⟨x, rfl, rfl⟩, ⟨y, rfl, rfl⟩, rfl⟩
    exact ⟨(x, y), rfl, rfl⟩
  · rintro ⟨⟨x, y⟩, rfl, rfl⟩
    exact ⟨_, _, _, ⟨x, rfl, rfl⟩, ⟨y, rfl, rfl⟩, rfl⟩

theorem inverts_value {α : Type} (value : α) :
    Inverts (fun bytes => .ok (value, bytes)) (fun _ : Unit => []) fun _ => value :=
  (reads_value value).congr fun _ _ => by simp

/-! ## Keys, numbers and contents -/

theorem reads_take (length : Nat) :
    Reads (take length) fun read value => read = value ∧ value.length = length where
  ok_iff {bytes rest value} := by
    rw [take]
    split
    · rename_i short
      simp only [reduceCtorEq, false_iff, not_exists, not_and]
      rintro _ ⟨rfl, rfl⟩ rfl
      exact absurd short (by simp)
    · rename_i long
      simp only [Except.ok.injEq, Prod.mk.injEq]
      constructor
      · rintro ⟨rfl, rfl⟩
        exact ⟨_, ⟨rfl, List.length_take_of_le (Nat.not_lt.1 long)⟩,
          (List.take_append_drop ..).symm⟩
      · rintro ⟨_, ⟨rfl, rfl⟩, rfl⟩
        exact ⟨List.take_left, List.drop_left⟩
  truncated_iff {bytes} := by
    rw [take]
    split
    · rename_i short
      simp only [true_iff]
      refine ⟨bytes ++ List.replicate (length - bytes.length) 0, _, ⟨rfl, ?_⟩,
        List.prefix_append .., fun whole => ?_⟩
      · rw [List.length_append, List.length_replicate]
        omega
      · have size := congrArg List.length whole
        rw [List.length_append, List.length_replicate] at size
        omega
    · rename_i long
      simp only [reduceCtorEq, false_iff, not_exists, not_and, not_not]
      rintro _ value ⟨rfl, rfl⟩ inside
      exact inside.eq_of_length_le (Nat.not_lt.1 long)
  header_only {bytes} := by
    rw [take]
    split <;> simp

def keyByte (key : Char) : UInt8 := UInt8.ofNat key.toNat

theorem expectKey_cons (key : Char) (b : UInt8) (rest : Bytes) :
    expectKey key (b :: rest) =
      if b = keyByte key then .ok ((), rest) else .error (.expectedField key) := by
  have first : take 1 (b :: rest) = .ok ([b], rest) := if_neg (by simp)
  rw [expectKey, first]
  exact if_congr List.singleton_inj rfl rfl

theorem reads_expectKey (key : Char) :
    Reads (expectKey key) fun read _ => read = [keyByte key] where
  ok_iff {bytes rest _} := by
    cases bytes with
    | nil => simp [expectKey, take, bind, Except.bind]
    | cons b others =>
        rw [expectKey_cons]
        split
        · rename_i same
          simp [same]
        · rename_i other
          simp [other]
  truncated_iff {bytes} := by
    cases bytes with
    | nil => simp [expectKey, take, bind, Except.bind]
    | cons b others =>
        rw [expectKey_cons]
        simp only [exists_const, exists_eq_left, List.cons_prefix_cons, List.prefix_nil]
        split <;> grind
  header_only {bytes} := by
    cases bytes with
    | nil => simp [expectKey, take, bind, Except.bind]
    | cons b others =>
        rw [expectKey_cons]
        split <;> simp

theorem inverts_expectKey (key : Char) :
    Inverts (expectKey key) (fun _ : Unit => [keyByte key]) fun _ => () :=
  (reads_expectKey key).congr fun _ _ => by simp

theorem reads_number (size : Nat) :
    Reads (number size) fun read n => read = bigEndian size n ∧ n < 256 ^ size := by
  have reads := (reads_take size).andThen (fun digits => reads_value (ofBigEndian digits))
    fun digits => ⟨[], _, rfl, rfl⟩
  refine reads.congr fun read n => ?_
  constructor
  · rintro ⟨digits, before, behind, ⟨rfl, rfl⟩, ⟨rfl, rfl⟩, rfl⟩
    rw [List.append_nil]
    exact ofBigEndian_eq_iff.1 rfl
  · rintro ⟨rfl, fits⟩
    have size' := length_bigEndian size n
    refine ⟨bigEndian size n, _, [], ⟨rfl, size'⟩, ⟨rfl, ?_⟩, (List.append_nil _).symm⟩
    exact (ofBigEndian_eq_iff.2 ⟨by rw [size'], by rwa [size']⟩).symm

theorem inverts_number :
    Inverts (number 4) (fun n : UInt32 => bigEndian 4 n.toNat) UInt32.toNat := by
  refine (reads_number 4).congr fun read n => ?_
  constructor
  · rintro ⟨rfl, fits⟩
    have same : (UInt32.ofNat n).toNat = n := UInt32.toNat_ofNat_of_lt' fits
    exact ⟨.ofNat n, congrArg (bigEndian 4) same.symm, same.symm⟩
  · rintro ⟨word, rfl, rfl⟩
    exact ⟨rfl, word.toNat_lt⟩

/-! ## Text fields -/

/-- The content of a text field: a text and, where it is closed, a zero byte.  A text that is
not closed does not end with a zero byte itself.  The length has to fit its 16 bits. -/
structure TextField where
  shown : Bytes
  closed : Bool
  zero_closes : closed = false → shown.getLast? ≠ some 0
  fits : shown.length + closed.toNat < 256 ^ 2

namespace TextField

instance : Inhabited TextField := ⟨⟨[], false, by simp, by decide⟩⟩

def content (f : TextField) : Bytes := f.shown ++ List.replicate f.closed.toNat 0

/-- A key, the length of the content and the content. -/
def bytes (key : Char) (f : TextField) : Bytes :=
  keyByte key :: (bigEndian 2 f.content.length ++ f.content)

def text (f : TextField) : String := String.ofList (Text.decodeUtf8 f.shown)

theorem length_content (f : TextField) : f.content.length < 256 ^ 2 := by
  rw [content, List.length_append, List.length_replicate]
  exact f.fits

theorem fieldText_content (f : TextField) : fieldText f.content = f.text := by
  obtain ⟨shown, closed, zero_closes, _⟩ := f
  cases closed with
  | true => simp [fieldText, content, text]
  | false => simp [fieldText, content, text, zero_closes rfl]

/-- The text of a field is the lossy reading of what it shows. -/
theorem text_eq_iff (f : TextField) (text : List Char) :
    f.text = String.ofList text ↔ Text.Lossy f.shown text := by
  rw [Text.lossy_iff, TextField.text, String.ofList_inj, eq_comm]

/-- Whatever fits is the content of a field. -/
theorem exists_content {bytes : Bytes} (fits : bytes.length < 256 ^ 2) :
    ∃ f : TextField, f.content = bytes := by
  rcases List.eq_nil_or_concat bytes with rfl | ⟨front, last, rfl⟩
  · exact ⟨⟨[], false, by simp, fits⟩, rfl⟩
  · by_cases zero : last = 0
    · exact ⟨⟨front, true, by simp, by simpa using fits⟩, by simp [content, zero]⟩
    · exact ⟨⟨front ++ [last], false, by simp [zero], by simpa using fits⟩, by simp [content]⟩

end TextField

theorem field_eq (key : Char) : field key =
    andThen (expectKey key) fun _ => andThen (number 2) fun length =>
      andThen (take length) fun content bytes => .ok (fieldText content, bytes) := rfl

theorem inverts_field (key : Char) : Inverts (field key) (TextField.bytes key) TextField.text := by
  have content (length : Nat) := (reads_take length).andThen
    (fun content => reads_value (fieldText content)) fun _ => ⟨_, _, rfl, rfl⟩
  have counted := (reads_number 2).andThen content fun length =>
    ⟨_, _, List.replicate length 0, _, _, ⟨rfl, List.length_replicate⟩, ⟨rfl, rfl⟩, rfl⟩
  have keyed := (reads_expectKey key).andThen (fun _ => counted) fun _ =>
    ⟨_, _, 0, _, _, ⟨rfl, by decide⟩, ⟨[], _, _, ⟨rfl, rfl⟩, ⟨rfl, rfl⟩, rfl⟩, rfl⟩
  rw [field_eq]
  refine Reads.congr keyed fun read text => ?_
  constructor
  · rintro ⟨_, _, _, rfl,
      ⟨_, _, _, ⟨rfl, fits⟩, ⟨content, _, _, ⟨rfl, rfl⟩, ⟨rfl, rfl⟩, rfl⟩, rfl⟩, rfl⟩
    obtain ⟨f, rfl⟩ := TextField.exists_content fits
    refine ⟨f, ?_, f.fieldText_content⟩
    rw [List.append_nil]
    rfl
  · rintro ⟨f, rfl, rfl⟩
    exact ⟨(), _, _, rfl, ⟨_, _, _, ⟨rfl, f.length_content⟩,
      ⟨f.content, _, [], ⟨rfl, rfl⟩, ⟨rfl, f.fieldText_content.symm⟩, rfl⟩, rfl⟩,
      by simp [TextField.bytes]⟩

/-! ## Headers -/

/-- What is told of an image: what its header says and the digest of all of it. -/
def describe (digest : Bytes → Bytes) (image : Bytes) (design part date time : String)
    (bitstreamLength : Nat) : BitfileInfo :=
  ⟨design, part, date, time, bitstreamLength, hexOfBytes (digest image)⟩

/-- What the header of an image holds. -/
structure Header where
  design : TextField
  part : TextField
  date : TextField
  time : TextField
  bitstreamLength : UInt32

namespace Header

/-- The bytes behind the magic ones. -/
def fields (h : Header) : Bytes :=
  h.design.bytes 'a' ++ (h.part.bytes 'b' ++ (h.date.bytes 'c' ++ (h.time.bytes 'd' ++
    (keyByte 'e' :: bigEndian 4 h.bitstreamLength.toNat))))

def bytes (h : Header) : Bytes := magic ++ h.fields

/-- What is told of an image with this header. -/
def info (h : Header) (digest : Bytes → Bytes) (image : Bytes) : BitfileInfo :=
  describe digest image h.design.text h.part.text h.date.text h.time.text h.bitstreamLength.toNat

end Header

/-- Reads what stands between the magic bytes and the bitstream. -/
def readFields (digest : Bytes → Bytes) (image : Bytes) : Reader BitfileInfo :=
  andThen (field 'a') fun design => andThen (field 'b') fun part =>
    andThen (field 'c') fun date => andThen (field 'd') fun time =>
      andThen (expectKey 'e') fun _ => andThen (number 4) fun bitstreamLength bytes =>
        .ok (describe digest image design part date time bitstreamLength, bytes)

theorem inverts_readFields (digest : Bytes → Bytes) (image : Bytes) :
    Inverts (readFields digest image) Header.fields fun h => h.info digest image := by
  have reads := (inverts_field 'a').andThen fun design => (inverts_field 'b').andThen fun part =>
    (inverts_field 'c').andThen fun date => (inverts_field 'd').andThen fun time =>
      (inverts_expectKey 'e').andThen fun _ => inverts_number.andThen fun bitstreamLength =>
        inverts_value (describe digest image design part date time bitstreamLength)
  refine Reads.congr reads fun read info => ?_
  constructor
  · rintro ⟨⟨design, part, date, time, _, length, _⟩, rfl, rfl⟩
    exact ⟨⟨design, part, date, time, length⟩, by simp [Header.fields], rfl⟩
  · rintro ⟨⟨design, part, date, time, length⟩, rfl, rfl⟩
    exact ⟨⟨design, part, date, time, (), length, ()⟩, by simp [Header.fields], rfl⟩

theorem parse_eq (digest : Bytes → Bytes) (image : Bytes) : parse image digest = do
    let (start, rest) ← take magic.length image
    if start ≠ magic then throw .unknownHeader
    let (info, rest) ← readFields digest image rest
    if rest.length < info.bitstreamLength then throw .truncatedBitstream
    return info := by
  simp only [parse, readFields, andThen, bind_assoc]
  rfl

section Parse

variable {digest : Bytes → Bytes} {image : Bytes}

theorem parse_of_short (short : image.length < magic.length) :
    parse image digest = .error .truncatedHeader := by
  rw [parse_eq, take, if_pos short]
  rfl

theorem parse_of_other (long : magic.length ≤ image.length) (other : ¬magic <+: image) :
    parse image digest = .error .unknownHeader := by
  have differs : image.take magic.length ≠ magic :=
    fun same => other (List.prefix_iff_eq_take.2 same.symm)
  rw [parse_eq, take, if_neg (Nat.not_lt.2 long)]
  simp only [bind, Except.bind, if_pos differs]
  rfl

theorem parse_of_magic (behind : Bytes) : parse (magic ++ behind) digest =
    readFields digest (magic ++ behind) behind >>= fun (info, rest) =>
      if rest.length < info.bitstreamLength then .error .truncatedBitstream else .ok info := by
  have start : take magic.length (magic ++ behind) = .ok (magic, behind) :=
    (reads_take _).ok_iff.2 ⟨magic, ⟨rfl, rfl⟩, rfl⟩
  rw [parse_eq, start]
  rfl

/-- An image is too short for the magic bytes, or has other ones, or begins with them. -/
theorem start_cases (image : Bytes) : image.length < magic.length ∨
    magic.length ≤ image.length ∧ ¬magic <+: image ∨ ∃ behind, image = magic ++ behind := by
  by_cases known : magic <+: image
  · exact .inr (.inr (known.imp fun _ same => same.symm))
  · rcases Nat.lt_or_ge image.length magic.length with short | long
    · exact .inl short
    · exact .inr (.inl ⟨long, known⟩)

theorem parse_of_header (h : Header) (rest : Bytes) : parse (h.bytes ++ rest) digest =
    if rest.length < h.bitstreamLength.toNat then .error .truncatedBitstream
    else .ok (h.info digest (h.bytes ++ rest)) := by
  have read := (inverts_readFields digest (h.bytes ++ rest)).ok_iff.2
    ⟨h.fields, ⟨h, rfl, rfl⟩, (rfl : h.fields ++ rest = _)⟩
  rw [Header.bytes, List.append_assoc] at read ⊢
  rw [parse_of_magic, read]
  rfl

/-- Where the fields can be read, there is a header. -/
theorem exists_header {behind rest : Bytes} {info : BitfileInfo}
    (read : readFields digest (magic ++ behind) behind = .ok (info, rest)) :
    ∃ h : Header, magic ++ behind = h.bytes ++ rest := by
  obtain ⟨_, ⟨h, rfl, _⟩, rfl⟩ := (inverts_readFields _ _).ok_iff.1 read
  exact ⟨h, (List.append_assoc ..).symm⟩

/-- **What is accepted** begins with a header and has the bitstream that this announces. -/
theorem parse_eq_ok_iff {info : BitfileInfo} : parse image digest = .ok info ↔ ∃ h : Header,
    h.bytes <+: image ∧ h.bytes.length + h.bitstreamLength.toNat ≤ image.length ∧
      info = h.info digest image := by
  constructor
  · intro accepted
    rcases start_cases image with short | ⟨long, other⟩ | ⟨behind, rfl⟩
    · cases (parse_of_short short).symm.trans accepted
    · cases (parse_of_other long other).symm.trans accepted
    · obtain ⟨⟨_, rest⟩, read, _⟩ := bind_eq_ok.1 ((parse_of_magic behind).symm.trans accepted)
      obtain ⟨h, same⟩ := exists_header read
      rw [same, parse_of_header] at accepted
      split at accepted
      · cases accepted
      · rename_i whole
        rw [same, List.length_append]
        exact ⟨h, List.prefix_append .., by omega, (Except.ok.inj accepted).symm⟩
  · rintro ⟨h, ⟨rest, rfl⟩, whole, rfl⟩
    rw [List.length_append] at whole
    rw [parse_of_header, if_neg (by omega)]

/-- A bitstream is found too short exactly if it ends with the image before its announced length. -/
theorem parse_eq_truncatedBitstream_iff : parse image digest = .error .truncatedBitstream ↔
    ∃ h : Header, h.bytes <+: image ∧ image.length < h.bytes.length + h.bitstreamLength.toNat := by
  constructor
  · intro refused
    rcases start_cases image with short | ⟨long, other⟩ | ⟨behind, rfl⟩
    · cases (parse_of_short short).symm.trans refused
    · cases (parse_of_other long other).symm.trans refused
    · rcases bind_eq_error.1 ((parse_of_magic behind).symm.trans refused) with
        inside | ⟨⟨_, rest⟩, read, _⟩
      · exact absurd inside (inverts_readFields _ _).header_only
      · obtain ⟨h, same⟩ := exists_header read
        rw [same, parse_of_header] at refused
        split at refused
        · rename_i short
          rw [same, List.length_append]
          exact ⟨h, List.prefix_append .., by omega⟩
        · cases refused
  · rintro ⟨h, ⟨rest, rfl⟩, short⟩
    rw [List.length_append] at short
    rw [parse_of_header, if_pos (by omega)]

/-- A header is found too short exactly if the image ends inside of it. -/
theorem parse_eq_truncatedHeader_iff : parse image digest = .error .truncatedHeader ↔
    image.length < magic.length ∨ ∃ h : Header, image <+: h.bytes ∧ image ≠ h.bytes := by
  rcases start_cases image with short | ⟨long, other⟩ | ⟨behind, rfl⟩
  · simp only [parse_of_short short, short, true_or]
  · rw [parse_of_other long other]
    simp only [Except.error.injEq, reduceCtorEq, false_iff, not_or, Nat.not_lt, long, true_and,
      not_exists, not_and]
    intro h inside
    exact absurd (List.prefix_of_prefix_length_le (List.prefix_append ..) inside long) other
  · have long : ¬(magic ++ behind).length < magic.length := by simp
    have cut_iff (h : Header) : magic ++ behind <+: h.bytes ∧ magic ++ behind ≠ h.bytes ↔
        behind <+: h.fields ∧ behind ≠ h.fields := by
      rw [Header.bytes, List.prefix_append_right_inj, ne_eq, List.append_cancel_left_eq]
    rw [parse_of_magic, bind_eq_error, (inverts_readFields _ _).truncated_iff]
    simp only [long, false_or, cut_iff]
    constructor
    · rintro (⟨_, _, ⟨h, rfl, rfl⟩, cut⟩ | ⟨⟨info, rest⟩, _, refused⟩)
      · exact ⟨h, cut⟩
      · split at refused <;> cases refused
    · rintro ⟨h, cut⟩
      exact .inl ⟨_, _, ⟨h, rfl, rfl⟩, cut⟩

end Parse

/-- **The images with a header are those that are accepted.**  An image is accepted exactly if it
begins with the bytes of a header and has as many bytes behind them as the header announces; then
it is told what the header holds, where the text of a field is the lossy reading of its bytes
without the zero byte that closes it, and whatever digest is shown beside it.  All others are
refused.  In particular no byte is looked for behind the end: an image that ends inside of a
header, or before the end of the bitstream, is refused for just that. -/
theorem accepted_iff_header (digest : Bytes → Bytes) (image : Bytes) :
    (∀ info, parse image digest = .ok info ↔ ∃ h : Header, h.bytes <+: image ∧
      h.bytes.length + h.bitstreamLength.toNat ≤ image.length ∧ info = h.info digest image) ∧
    ((∃ fault, parse image digest = .error fault) ↔ ¬∃ h : Header, h.bytes <+: image ∧
      h.bytes.length + h.bitstreamLength.toNat ≤ image.length) ∧
    (∀ (f : TextField) (text : List Char), f.text = String.ofList text ↔ Text.Lossy f.shown text) ∧
    (parse image digest = .error .truncatedHeader ↔
      image.length < magic.length ∨ ∃ h : Header, image <+: h.bytes ∧ image ≠ h.bytes) ∧
    (parse image digest = .error .truncatedBitstream ↔ ∃ h : Header, h.bytes <+: image ∧
      image.length < h.bytes.length + h.bitstreamLength.toNat) := by
  refine ⟨fun _ => parse_eq_ok_iff, ?_, TextField.text_eq_iff, parse_eq_truncatedHeader_iff,
    parse_eq_truncatedBitstream_iff⟩
  cases outcome : parse image digest with
  | ok info =>
      obtain ⟨h, begins, whole, _⟩ := parse_eq_ok_iff.1 outcome
      simp only [reduceCtorEq, exists_false, false_iff, not_not]
      exact ⟨h, begins, whole⟩
  | error fault =>
      simp only [Except.error.injEq, exists_eq', true_iff]
      rintro ⟨h, begins, whole⟩
      cases outcome.symm.trans (parse_eq_ok_iff.2 ⟨h, begins, whole, rfl⟩)

end PulseSequencer.Bitfile
