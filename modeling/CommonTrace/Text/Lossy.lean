/-!
# Text from bytes

Strings in a trace are UTF-8 by intention only. `lossy` reads any bytes as
text: every well-formed character is kept, and every longest run of bytes that
begins a character without completing it becomes one replacement character.
The reader is a left fold over the bytes whose state is the text so far and the
character being assembled.
-/
namespace CommonTrace.Text

/-- The character put in place of bytes that are not UTF-8. -/
def replacement : Char := '\uFFFD'

/-- A multi-byte character of which some bytes have been read: the payload bits so
far, how many bytes are still missing, and the range the next byte must lie in. -/
structure Pending where
  payload : Nat
  missing : Nat
  low : UInt8 := 0x80
  high : UInt8 := 0xBF

/-- What one byte does to the character being assembled. -/
inductive Progress where
  | complete (character : Char)
  | pending (state : Pending)
  | invalid

/-- Reads the first byte of a character. The range of the second byte excludes
overlong forms, surrogates and values above the last code point. -/
def Progress.start (byte : UInt8) : Progress :=
  if byte < 0x80 then .complete (Char.ofNat byte.toNat)
  else if byte < 0xC2 then .invalid
  else if byte < 0xE0 then .pending ⟨byte.toNat % 0x20, 1, 0x80, 0xBF⟩
  else if byte = 0xE0 then .pending ⟨0, 2, 0xA0, 0xBF⟩
  else if byte = 0xED then .pending ⟨0x0D, 2, 0x80, 0x9F⟩
  else if byte < 0xF0 then .pending ⟨byte.toNat % 0x10, 2, 0x80, 0xBF⟩
  else if byte = 0xF0 then .pending ⟨0, 3, 0x90, 0xBF⟩
  else if byte < 0xF4 then .pending ⟨byte.toNat % 0x08, 3, 0x80, 0xBF⟩
  else if byte = 0xF4 then .pending ⟨4, 3, 0x80, 0x8F⟩
  else .invalid

/-- Reads a further byte of a character. -/
def Pending.accept (p : Pending) (byte : UInt8) : Progress :=
  if p.low ≤ byte ∧ byte ≤ p.high then
    let payload := p.payload * 0x40 + byte.toNat % 0x40
    if p.missing ≤ 1 then .complete (Char.ofNat payload)
    else .pending ⟨payload, p.missing - 1, 0x80, 0xBF⟩
  else .invalid

/-- The text read so far and the character being assembled. -/
structure Decoder where
  text : String := ""
  pending : Option Pending := none

/-- Begins a new character with `byte`. -/
def Decoder.restart (text : String) (byte : UInt8) : Decoder :=
  match Progress.start byte with
  | .complete c => ⟨text.push c, none⟩
  | .pending p => ⟨text, some p⟩
  | .invalid => ⟨text.push replacement, none⟩

/-- Reads one byte. A byte that cannot continue the character being assembled
ends it with a replacement character and begins a new one. -/
def Decoder.step (d : Decoder) (byte : UInt8) : Decoder :=
  match d.pending with
  | none => Decoder.restart d.text byte
  | some p =>
    match p.accept byte with
    | .complete c => ⟨d.text.push c, none⟩
    | .pending p => ⟨d.text, some p⟩
    | .invalid => Decoder.restart (d.text.push replacement) byte

/-- The text, a character left incomplete counting as one replacement. -/
def Decoder.finish (d : Decoder) : String :=
  match d.pending with
  | none => d.text
  | some _ => d.text.push replacement

/-- Bytes read as UTF-8 text, with replacements for what is not UTF-8. -/
def lossy (bytes : List UInt8) : String :=
  (bytes.foldl Decoder.step {}).finish

end CommonTrace.Text
