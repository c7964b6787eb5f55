import CommonTrace.Number.Digits

/-!
# Trace identifiers

A trace may be identified by a UUID of sixteen bytes. It is written in groups of
eight, four, four, four and twelve hexadecimal digits joined by hyphens, and it is
read in that form, in braces, as a URN, or as thirty-two digits without hyphens.
Letter case does not count.
-/
namespace CommonTrace

/-- A universally unique identifier. -/
structure Uuid where
  bytes : List UInt8
  size : bytes.length = 16
  deriving DecidableEq

namespace Uuid

/-- The identifier made of the given bytes, if there are sixteen. -/
def ofBytes? (bytes : List UInt8) : Option Uuid :=
  if h : bytes.length = 16 then some ⟨bytes, h⟩ else none

/-- The bytes written by pairs of hexadecimal digits. -/
def bytesOfDigits? : List Char → Option (List UInt8)
  | [] => some []
  | [_] => none
  | c :: d :: rest => do
    let high ← Digits.digit? c
    let low ← Digits.digit? d
    let bytes ← bytesOfDigits? rest
    return UInt8.ofNat (16 * high + low) :: bytes

/-- The digits of the form with hyphens, if the hyphens are in place. -/
def digitsOfHyphenated? (cs : List Char) : Option (List Char) :=
  if cs.length = 36 ∧ [8, 13, 18, 23].all (fun i => cs[i]? == some '-') then
    some (cs.take 8 ++ (cs.drop 9).take 4 ++ (cs.drop 14).take 4 ++ (cs.drop 19).take 4
      ++ cs.drop 24)
  else none

/-- Reads an identifier. -/
def parse? (text : String) : Option Uuid := do
  let cs := text.toList
  let digits ←
    if cs.length = 32 then some cs
    else if cs.length = 38 ∧ cs.head? = some '\x7b' ∧ cs.getLast? = some '\x7d' then
      digitsOfHyphenated? cs.tail.dropLast
    else if (cs.take 9).map Char.toLower = "urn:uuid:".toList then digitsOfHyphenated? (cs.drop 9)
    else digitsOfHyphenated? cs
  ofBytes? (← bytesOfDigits? digits)

/-- The two hexadecimal digits of a byte. -/
def digitsOfByte (byte : UInt8) : List Char :=
  [Nat.digitChar (byte.toNat / 16), Nat.digitChar (byte.toNat % 16)]

/-- The form with hyphens, in lower case. -/
def text (u : Uuid) : String :=
  let digits := u.bytes.flatMap digitsOfByte
  String.ofList (digits.take 8 ++ '-' :: (digits.drop 8).take 4 ++ '-' :: (digits.drop 12).take 4
    ++ '-' :: (digits.drop 16).take 4 ++ '-' :: digits.drop 20)

end Uuid

end CommonTrace
