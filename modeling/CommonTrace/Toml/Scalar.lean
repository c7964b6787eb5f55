import CommonTrace.Document.Basic
import CommonTrace.Number.Digits
import CommonTrace.Number.Width

/-!
# Words

A value that is neither quoted nor composed is one word: a truth value, a number or a
date. Digits may be grouped by underscores, each between two digits. Whole numbers have
to fit into 64 bits with a sign. Of real numbers only those are refused that exceed the
largest double, and of dates those that no calendar has.
-/
namespace CommonTrace.Toml

/-- The digits without the underscores between them. -/
def ungrouped? (base : Nat) (digits : List Char) : Option (List Char) :=
  let groups := digits.splitOn '_'
  if groups.all (· ≠ []) ∧ (Digits.value? base groups.flatten).isSome then some groups.flatten
  else none

/-- The digits of a decimal number that has no needless zero in front. -/
def decimal? (digits : List Char) : Option (List Char) := do
  let digits ← ungrouped? 10 digits
  if digits.head? = some '0' ∧ digits ≠ ['0'] ∨ digits.length = 0 then none else some digits

/-- Whether a number has a minus sign, and the number without its sign. -/
def signed : List Char → Bool × List Char
  | '-' :: rest => (true, rest)
  | '+' :: rest => (false, rest)
  | word => (false, word)

/-- The whole number that a word writes. Numbers of another base have no sign. -/
def integer? (word : List Char) : Option Int := do
  let ofBase (base : Nat) (digits : List Char) : Option Int :=
    ((ungrouped? base digits).bind (Digits.value? base)).map Int.ofNat
  let n ← match word with
    | '0' :: 'x' :: digits => ofBase 16 digits
    | '0' :: 'o' :: digits => ofBase 8 digits
    | '0' :: 'b' :: digits => ofBase 2 digits
    | _ => do
      let (negative, digits) := signed word
      let n ← (decimal? digits).bind (Digits.value? 10)
      some (if negative then -(n : Int) else n)
  Width.signed? 64 n

/-- Whether `digits * 10 ^ exponent` lies beyond the largest double by half a unit of its
last place or more. -/
def overflows (digits : Nat) (exponent : Int) : Bool :=
  let bound := Nat.pow 2 1024 - Nat.pow 2 970
  if digits = 0 then false
  else if 400 < exponent then true
  else if 0 ≤ exponent then decide (bound ≤ digits * Nat.pow 10 exponent.toNat)
  else if (digits.log2 : Int) < -exponent then false
  else decide (bound * Nat.pow 10 (-exponent).toNat ≤ digits)

/-- A number with a fraction or an exponent: its digits, and the power of ten that
multiplies them. -/
def scientific? (number : List Char) : Option (Nat × Int) := do
  let (mantissa, exponent) := number.span fun c => c ≠ 'e' ∧ c ≠ 'E'
  let (whole, fraction) := mantissa.span (· ≠ '.')
  if fraction.isEmpty ∧ exponent.isEmpty then failure
  let whole ← decimal? whole
  let fraction ← match fraction with
    | [] => some []
    | _ :: digits => ungrouped? 10 digits
  let power ← match exponent with
    | [] => some 0
    | _ :: exponent => do
      let (negative, digits) := signed exponent
      let n ← (ungrouped? 10 digits).bind (Digits.value? 10)
      some (if negative then -(n : Int) else n)
  let digits ← Digits.value? 10 (whole ++ fraction)
  return (digits, power - fraction.length)

/-- Whether a word writes a real number. -/
def isReal (word : List Char) : Bool :=
  let (negative, number) := signed word
  number = "inf".toList || number = "nan".toList ||
    (scientific? number).any fun (digits, exponent) => negative || !overflows digits exponent

/-- The number written by two decimal digits, if it lies between two others. -/
def twoDigits? (low high : Nat) (a b : Char) : Option Nat := do
  let n ← Digits.value? 10 [a, b]
  if low ≤ n ∧ n ≤ high then some n else none

/-- The number of days of a month. -/
def daysOfMonth (year month : Nat) : Nat :=
  if month = 2 then
    if year % 4 = 0 ∧ (year % 100 ≠ 0 ∨ year % 400 = 0) then 29 else 28
  else if month ∈ [4, 6, 9, 11] then 30
  else 31

/-- The date at the start of a word, and what follows it. -/
def date? : List Char → Option (List Char × List Char)
  | a :: b :: c :: d :: '-' :: e :: f :: '-' :: g :: h :: rest => do
    let year ← Digits.value? 10 [a, b, c, d]
    let month ← twoDigits? 1 12 e f
    let _ ← twoDigits? 1 (daysOfMonth year month) g h
    return ([a, b, c, d, '-', e, f, '-', g, h], rest)
  | _ => none

/-- The fraction of a second as it is shown: nine digits at most, and no zeros at the end. -/
def shownFraction (digits : List Char) : List Char :=
  match ((digits.take 9).reverse.dropWhile (· = '0')).reverse with
  | [] => []
  | shown => '.' :: shown

/-- The time at the start of a word, and what follows it. -/
def time? : List Char → Option (List Char × List Char)
  | a :: b :: ':' :: c :: d :: ':' :: e :: f :: rest => do
    let _ ← twoDigits? 0 23 a b
    let _ ← twoDigits? 0 59 c d
    let _ ← twoDigits? 0 60 e f
    let shown := [a, b, ':', c, d, ':', e, f]
    match rest with
    | '.' :: rest =>
      let (fraction, rest) := rest.span Digits.isDecimal
      if fraction.isEmpty then none else some (shown ++ shownFraction fraction, rest)
    | rest => some (shown, rest)
  | _ => none

/-- The offset of a time, or nothing. -/
def offset? : List Char → Option (List Char)
  | [] => some []
  | ['Z'] => some ['Z']
  | ['z'] => some ['Z']
  | [sign, a, b, ':', c, d] => do
    if sign ≠ '+' ∧ sign ≠ '-' then failure
    let hours ← twoDigits? 0 23 a b
    let minutes ← twoDigits? 0 59 c d
    return [if hours = 0 ∧ minutes = 0 then '+' else sign, a, b, ':', c, d]
  | _ => none

/-- Whether a word is a date. -/
def isDate (word : List Char) : Bool := (date? word).any (·.2.isEmpty)

/-- The text of a word that is a date, a time, or a date and a time with or without an
offset. -/
def moment? (word : List Char) : Option (List Char) :=
  match time? word with
  | some (time, rest) => if rest.isEmpty then some time else none
  | none => do
    let (date, rest) ← date? word
    match rest with
    | [] => return date
    | delimiter :: rest =>
      if delimiter ≠ 'T' ∧ delimiter ≠ 't' then failure
      let (time, rest) ← time? rest
      return date ++ 'T' :: time ++ (← offset? rest)

/-- The value of a word. -/
def wordValue? (word : List Char) : Option Document :=
  if word = "true".toList then some (.boolean true)
  else if word = "false".toList then some (.boolean false)
  else if isReal word then some .real
  else ((moment? word).map fun text => .date (String.ofList text)).or ((integer? word).map .integer)

end CommonTrace.Toml
