import Bytecode.Decimal.Shortest

/-!
Text of binary numbers: the shortest digits, laid out as a style asks.
-/

namespace Bytecode.Decimal

/-- How numbers are laid out. -/
structure Style where
  infinity : String
  /-- Closes a number, or the digits before an exponent, that would show no point. -/
  whole : String
  exponentMark : String
  /-- Magnitudes from the one power of ten to below the other are written without an exponent;
  without bounds all are. -/
  positional : Option (Int × Int)

def zeros (count : Nat) : List Char := List.replicate count '0'

namespace Digits

def text (decimal : Digits) : List Char := Nat.toDigits 10 decimal.digits

/-- The digits with zeros or a point, and without an exponent. -/
def positional (whole : String) (decimal : Digits) : List Char :=
  let text := decimal.text
  let places := (-decimal.exponent).toNat
  if places == 0 then text ++ zeros decimal.exponent.toNat ++ whole.toList
  else if places < text.length then
    text.take (text.length - places) ++ '.' :: text.drop (text.length - places)
  else '0' :: '.' :: (zeros (places - text.length) ++ text)

/-- One digit before the point, and the power of ten after the mark. -/
def scientific (whole mark : String) (decimal : Digits) : List Char :=
  let text := decimal.text
  let fraction := text.drop 1
  let power := decimal.exponent + fraction.length
  text.take 1 ++ (if fraction.isEmpty then whole.toList else '.' :: fraction) ++ mark.toList ++
    (toString power).toList

end Digits

def Style.isPositional (style : Style) (magnitude : Magnitude) : Bool :=
  match style.positional with
  | none => true
  | some (least, most) =>
    let interval := Interval.ofMagnitude magnitude
    let leading := decimalExponent interval.value interval.den
    least ≤ leading && leading < most

def Style.magnitudeText (style : Style) (magnitude : Magnitude) : List Char :=
  if magnitude.significand == 0 then '0' :: style.whole.toList
  else if style.isPositional magnitude then (shortest magnitude).positional style.whole
  else (shortest magnitude).scientific style.whole style.exponentMark

def Style.render (style : Style) (format : BinaryFormat) (bits : Nat) : String :=
  let signed (negative : Bool) (text : List Char) : String :=
    String.ofList (if negative then '-' :: text else text)
  match format.decode bits with
  | .nan => "NaN"
  | .infinite negative => signed negative style.infinity.toList
  | .finite negative magnitude => signed negative (style.magnitudeText magnitude)

end Bytecode.Decimal
