/-!
# The shortest decimal that reads back

A finite double stands for every real number that rounds to it. Among the decimals `d · 10^k` in
that interval the ones with the greatest `k` have the fewest digits, and `Decimal.shortest` takes
the one nearest to the double, the even one of two that are equally near. All of it is exact
arithmetic on natural numbers.
-/

namespace JsonShape

/-- The number `digits · 10^exponent`. -/
structure Decimal where
  digits : Nat
  exponent : Int
  deriving Repr, DecidableEq

namespace Decimal

/-- A positive double: the value is `significand · 2^exponent`. The interval of real numbers that
round to it is narrower below if the next smaller double has a smaller exponent. Its ends belong
to it if the significand is even. -/
structure Binary where
  significand : Nat
  exponent : Int
  narrowBelow : Bool

/-- The leading bit of a significand, which the bits of a double leave out: `2^52`. -/
def hiddenBit : Nat := 0x10000000000000

/-- The magnitude of a finite double that is not zero, from its bits. -/
def Binary.ofBits (bits : UInt64) : Binary :=
  let fraction : Nat := bits.toNat % hiddenBit
  let biased : Nat := bits.toNat / hiddenBit % 2048
  if biased = 0 then ⟨fraction, -1074, false⟩
  else ⟨fraction + hiddenBit, (biased : Int) - 1075, fraction = 0 && 1 < biased⟩

/-- The nearest multiple of `10^exponent` inside the interval of a double, if there is one.
Everything is counted in quarters of the last binary place. -/
def onGrid? (value : Binary) (exponent : Int) : Option Nat :=
  let unit := value.exponent - 2
  let scale := Nat.pow 2 unit.toNat * Nat.pow 10 (-exponent).toNat
  let step := Nat.pow 2 (-unit).toNat * Nat.pow 10 exponent.toNat
  let centre := 4 * value.significand * scale
  let upper := (4 * value.significand + 2) * scale
  let lower := (4 * value.significand - if value.narrowBelow then 1 else 2) * scale
  let closed := value.significand % 2 = 0
  let inside (candidate : Nat) : Bool :=
    (lower < candidate * step && candidate * step < upper) ||
      (closed && (candidate * step = lower || candidate * step = upper))
  let below := centre / step
  let above := below + 1
  if inside below && inside above then
    let downwards := centre - below * step
    let upwards := above * step - centre
    if downwards < upwards || (downwards = upwards && below % 2 = 0) then some below else some above
  else if inside below then some below
  else if inside above then some above
  else none

/-- The exponents that the shortest decimal of a double can have, from the greatest down. -/
def exponents : List Int :=
  (List.range 640).map fun index : Nat => 308 - (index : Int)

/-- The shortest decimal of the magnitude of a finite double. -/
def shortest (value : Float) : Decimal :=
  let binary := Binary.ofBits value.toBits
  if binary.significand = 0 then ⟨0, 0⟩
  else
    (exponents.findSome? fun exponent =>
      (onGrid? binary exponent).map (Decimal.mk · exponent)).getD ⟨0, 0⟩

def digitChars (value : Nat) : List Char :=
  Nat.toDigits 10 value

end Decimal

end JsonShape
