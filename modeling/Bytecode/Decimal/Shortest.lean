import Bytecode.Decimal.Binary

/-!
The fewest decimal digits that read back to a binary number. All decimals nearer to the number
than to its neighbours read back to it, and those half way do if its significand is even; of the
shortest ones the nearest is taken, and of two equally near ones the larger.
-/

namespace Bytecode.Decimal

/-- The positive decimal `digits * 10 ^ exponent`. -/
structure Digits where
  digits : Nat
  exponent : Int

/-- `num / den` is at least `10 ^ exponent`. -/
def reachesPower (num den : Nat) (exponent : Int) : Bool :=
  den * powerOfTen exponent.toNat ≤ num * powerOfTen (-exponent).toNat

/-- Raises an exponent while the fraction reaches the next power, at most `steps` times. -/
def raiseExponent (num den : Nat) : Nat → Int → Int
  | 0, exponent => exponent
  | steps + 1, exponent =>
    if reachesPower num den (exponent + 1) then raiseExponent num den steps (exponent + 1)
    else exponent

/-- The exponent of the greatest power of ten that is at most `num / den`, found from an estimate
by binary logarithms that is at most three too low. -/
def decimalExponent (num den : Nat) : Int :=
  let estimate := ((num.log2 : Int) - den.log2 - 1) * 30103 / 100000 - 1
  raiseExponent num den 4 estimate

/-- A number with the ends of the interval that reads back to it, over one denominator. -/
structure Interval where
  value : Nat
  lower : Nat
  upper : Nat
  den : Nat
  closed : Bool

def Interval.ofMagnitude (magnitude : Magnitude) : Interval :=
  let scale := powerOfTwo (magnitude.exponent - 2).toNat
  let quarter := 4 * magnitude.significand
  { value := quarter * scale
    lower := (quarter - if magnitude.narrowBelow then 1 else 2) * scale
    upper := (quarter + 2) * scale
    den := powerOfTwo (2 - magnitude.exponent).toNat
    closed := magnitude.significand % 2 == 0 }

/-- The better of the two multiples of `10 ^ exponent` around the value, if one reads back. -/
def Interval.onGrid? (interval : Interval) (exponent : Int) : Option Digits :=
  let up := powerOfTen (-exponent).toNat
  let unit := interval.den * powerOfTen exponent.toNat
  let floor := interval.value * up / unit
  let rest := interval.value * up % unit
  let inside (digits : Nat) : Bool :=
    let point := digits * unit
    if interval.closed then interval.lower * up ≤ point && point ≤ interval.upper * up
    else interval.lower * up < point && point < interval.upper * up
  match inside floor, inside (floor + 1) with
  | true, true => some ⟨if unit ≤ 2 * rest then floor + 1 else floor, exponent⟩
  | true, false => some ⟨floor, exponent⟩
  | false, true => some ⟨floor + 1, exponent⟩
  | false, false => none

/-- Moves zeros at the end of the digits into the exponent. -/
def Digits.dropZeros (fuel : Nat) (decimal : Digits) : Digits :=
  match fuel with
  | 0 => decimal
  | fuel + 1 =>
    if decimal.digits % 10 == 0 then dropZeros fuel ⟨decimal.digits / 10, decimal.exponent + 1⟩
    else decimal

/-- The shortest decimal of a magnitude other than zero; seventeen digits always suffice. -/
def shortest (magnitude : Magnitude) : Digits :=
  let interval := Interval.ofMagnitude magnitude
  let leading := decimalExponent interval.value interval.den
  let found := (List.range 17).findSome? fun more : Nat => interval.onGrid? (leading - more)
  (found.getD ⟨0, 0⟩).dropZeros 17

end Bytecode.Decimal
