/-!
Numbers in the binary interchange formats, read from their bit patterns.
-/

namespace Bytecode.Decimal

/-- Field sizes in bits; the sign takes one more. -/
structure BinaryFormat where
  fraction : Nat
  exponent : Nat

namespace BinaryFormat

def single : BinaryFormat := ⟨23, 8⟩

def double : BinaryFormat := ⟨52, 11⟩

end BinaryFormat

def powerOfTwo (exponent : Nat) : Nat := Nat.pow 2 exponent

def powerOfTen (exponent : Nat) : Nat := Nat.pow 10 exponent

/-- The magnitude `significand * 2 ^ exponent`. -/
structure Magnitude where
  significand : Nat
  exponent : Int
  /-- The next smaller number is nearer than the next larger one. -/
  narrowBelow : Bool

inductive BinaryNumber where
  | nan
  | infinite (negative : Bool)
  | finite (negative : Bool) (magnitude : Magnitude)

def BinaryFormat.decode (format : BinaryFormat) (bits : Nat) : BinaryNumber :=
  let hidden := powerOfTwo format.fraction
  let range := powerOfTwo format.exponent
  let fraction := bits % hidden
  let biased := bits / hidden % range
  let negative := bits / hidden / range % 2 == 1
  let bias : Int := powerOfTwo (format.exponent - 1) - 1
  if biased == range - 1 then
    if fraction == 0 then .infinite negative else .nan
  else if biased == 0 then
    .finite negative ⟨fraction, 1 - bias - format.fraction, false⟩
  else
    .finite negative
      ⟨hidden + fraction, biased - bias - format.fraction, fraction == 0 && biased != 1⟩

end Bytecode.Decimal
