import JsonShape.Decimal.Shortest
import JsonShape.Json.Basic
import JsonShape.Json.Quoted

/-!
# JSON numerals

`Numeral.read` splits a numeral into its parts as JSON's grammar asks: no sign but a minus, no
leading zero, a digit on both sides of the point and after the exponent mark.

`Numeral.value?` gives the number meant. A numeral of digits alone is an integer if it fits 64
bits. Every other number is computed in doubles from its first digits, as many as fit an unsigned
word of 64 bits, and scaled by powers of ten; a number beyond the greatest double has no value.

`Number.render` writes the shortest decimal: positional from `1e-5` up to below `1e16`, always
with a point, and with a signed exponent outside.
-/

namespace JsonShape

namespace Json

/-- The parts of a numeral. -/
structure Numeral where
  negative : Bool
  /-- The digits before the point. -/
  whole : List Char
  /-- The digits after the point, if there is one. -/
  fraction : Option (List Char)
  /-- The sign and the digits of the exponent, if there is one: `true` for a negative exponent. -/
  exponent : Option (Bool × List Char)
  deriving Repr, DecidableEq

namespace Numeral

def digitsValue (digits : List Char) : Nat :=
  digits.foldl (fun value digit => value * 10 + (digit.toNat - '0'.toNat)) 0

def digits (text : List Char) : Except Fault (List Char × List Char) :=
  match text with
  | [] => .error .truncated
  | first :: _ =>
      if first.isDigit then .ok (text.takeWhile Char.isDigit, text.dropWhile Char.isDigit)
      else .error .malformed

/-- The digits before the point: a zero stands alone. -/
def wholeDigits (text : List Char) : Except Fault (List Char × List Char) :=
  match digits text with
  | .error fault => .error fault
  | .ok (run, rest) =>
      if run.head? = some '0' && run.length != 1 then .error .malformed else .ok (run, rest)

/-- The point and the digits after it, if the numeral goes on with a point. -/
def fractionDigits : List Char → Except Fault (Option (List Char) × List Char)
  | '.' :: text =>
      match digits text with
      | .error fault => .error fault
      | .ok (run, rest) => .ok (some run, rest)
  | text => .ok (none, text)

/-- The sign of an exponent, and what follows it. -/
def exponentSign : List Char → Bool × List Char
  | '-' :: text => (true, text)
  | '+' :: text => (false, text)
  | text => (false, text)

/-- The exponent, if the numeral goes on with an exponent mark. -/
def exponentDigits : List Char → Except Fault (Option (Bool × List Char) × List Char)
  | mark :: text =>
      if mark = 'e' || mark = 'E' then
        match digits (exponentSign text).2 with
        | .error fault => .error fault
        | .ok (run, rest) => .ok (some ((exponentSign text).1, run), rest)
      else .ok (none, mark :: text)
  | [] => .ok (none, [])

def readMagnitude (negative : Bool) (text : List Char) : Except Fault (Numeral × List Char) :=
  match wholeDigits text with
  | .error fault => .error fault
  | .ok (whole, text) =>
      match fractionDigits text with
      | .error fault => .error fault
      | .ok (fraction, text) =>
          match exponentDigits text with
          | .error fault => .error fault
          | .ok (exponent, rest) => .ok (⟨negative, whole, fraction, exponent⟩, rest)

def read : List Char → Except Fault (Numeral × List Char)
  | '-' :: text => readMagnitude true text
  | text => readMagnitude false text

/-- The greatest significand that is kept, and the greatest integer of 64 bits: `2^64 - 1`. -/
def significandLimit : Nat := 0xffffffffffffffff

/-- The magnitude of the least integer of 64 bits: `2^63`. -/
def negativeLimit : Nat := 0x8000000000000000

/-- Exponents from here on are too great to be counted: `2^31`. -/
def exponentLimit : Nat := 0x80000000

/-- Appends digits to a significand until the next one would pass the limit; gives the digits that
were left over. -/
def accumulate (significand : Nat) : List Char → Nat × List Char
  | [] => (significand, [])
  | digit :: rest =>
      if significand * 10 + (digit.toNat - '0'.toNat) ≤ significandLimit then
        accumulate (significand * 10 + (digit.toNat - '0'.toNat)) rest
      else (significand, digit :: rest)

/-- The double `10^exponent`. -/
def powerOfTen (exponent : Nat) : Float :=
  Float.ofScientific 1 false exponent

/-- A double times a power of ten, in steps of at most `10^308`, or `none` if it is too great. -/
def scale (value : Float) (exponent : Int) : Option Float :=
  if 0 ≤ exponent then
    if exponent ≤ 308 then
      let scaled := value * powerOfTen exponent.toNat
      if scaled.isInf then none else some scaled
    else if value == 0.0 then some value
    else none
  else if -308 ≤ exponent then some (value / powerOfTen (-exponent).toNat)
  else if value == 0.0 then some value
  else scale (value / powerOfTen 308) (exponent + 308)
termination_by exponent.natAbs
decreasing_by omega

/-- A magnitude with the sign of the numeral. -/
def signed (numeral : Numeral) (magnitude : Float) : Float :=
  if numeral.negative then -magnitude else magnitude

/-- The value of a numeral that is not an integer of 64 bits. -/
def real? (numeral : Numeral) : Option Float :=
  let (significand, extra) := accumulate 0 numeral.whole
  let (significand, unused) := accumulate significand (numeral.fraction.getD [])
  let kept := (numeral.fraction.getD []).length - unused.length
  let shift : Int := (extra.length : Int) - kept
  let magnitude := significand.toUInt64.toFloat
  match numeral.exponent with
  | none => (scale magnitude shift).map numeral.signed
  | some (downwards, digits) =>
      let exponent := digitsValue digits
      if exponent < exponentLimit then
        (scale magnitude (if downwards then shift - exponent else shift + exponent)).map
          numeral.signed
      else if significand = 0 || downwards then some (numeral.signed 0.0)
      else none

/-- The number that a numeral stands for, unless it is too great for a double. -/
def value? (numeral : Numeral) : Option Number :=
  match numeral.fraction, numeral.exponent with
  | none, none =>
      let magnitude := digitsValue numeral.whole
      if numeral.negative then
        if 0 < magnitude && magnitude ≤ negativeLimit then some (.integer (-magnitude))
        else numeral.real?.map .real
      else if magnitude ≤ significandLimit then some (.integer magnitude)
      else numeral.real?.map .real
  | _, _ => numeral.real?.map .real

end Numeral

namespace Number

/-- A decimal with a point among or around its digits, or with an exponent, whose sign is always
written: positional from `1e-5` up to below `1e16`. -/
def renderDecimal (decimal : Decimal) : List Char :=
  let digits := Decimal.digitChars decimal.digits
  let point : Int := digits.length + decimal.exponent
  if 0 ≤ decimal.exponent && point ≤ 16 then
    digits ++ List.replicate decimal.exponent.toNat '0' ++ ['.', '0']
  else if 0 < point && point ≤ 16 then
    digits.take point.toNat ++ '.' :: digits.drop point.toNat
  else if -5 < point && point ≤ 0 then
    '0' :: '.' :: List.replicate (-point).toNat '0' ++ digits
  else
    digits.take 1 ++ (if digits.length = 1 then [] else '.' :: digits.drop 1) ++
      'e' :: (if 0 < point then ['+'] else []) ++ (toString (point - 1)).toList

/-- The text of a number. -/
def render : Number → String
  | .integer value => toString value
  | .real value =>
      let magnitude := String.ofList (renderDecimal (Decimal.shortest value))
      if value.toBits < 0x8000000000000000 then magnitude else "-" ++ magnitude

end Number

end Json

end JsonShape
