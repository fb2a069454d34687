/-!
Unsigned decimal numbers as they are written in operands and settings: an optional plus sign,
then one or more ASCII digits.
-/

namespace Bytecode.Text

def digitsValue (digits : List Char) : Nat :=
  digits.foldl (fun value digit => value * 10 + (digit.toNat - '0'.toNat)) 0

/-- The number a text writes, if it writes one that is at most `bound`. -/
def unsigned? (bound : Nat) (text : List Char) : Option Nat :=
  let digits := match text with
    | '+' :: rest => rest
    | _ => text
  if digits.isEmpty || !digits.all Char.isDigit then none
  else if digitsValue digits ≤ bound then some (digitsValue digits) else none

end Bytecode.Text
