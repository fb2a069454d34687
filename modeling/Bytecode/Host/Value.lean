import Bytecode.Decimal.Notation

/-!
Values that cross into and out of a running virtual machine, and the text that shows them.
-/

namespace Bytecode.Host

/-- An object inside the machine: the internal name of its class, and its identity. -/
structure Instance where
  className : String
  id : UInt64
  deriving DecidableEq, Repr

/-- The elements of an array of a primitive type. -/
inductive Elements where
  | booleans (values : List Bool)
  /-- Code units of UTF-16. -/
  | chars (values : List UInt16)
  | bytes (values : List Int8)
  | shorts (values : List Int16)
  | ints (values : List Int32)
  | longs (values : List Int64)
  /-- Bit patterns, as for single numbers. -/
  | floats (values : List UInt32)
  | doubles (values : List UInt64)
  deriving DecidableEq, Repr

inductive Value where
  /-- The result of a method that returns nothing. -/
  | void
  | null
  | boolean (value : Bool)
  | char (unit : UInt16)
  | byte (value : Int8)
  | short (value : Int16)
  | int (value : Int32)
  | long (value : Int64)
  | float (bits : UInt32)
  | double (bits : UInt64)
  | object (target : Instance)
  | array (elements : Elements)
  | references (elementType : String) (values : List Value)
  deriving Repr

namespace Instance

def isString (object : Instance) : Bool := object.className == "java/lang/String"

def text (object : Instance) : String :=
  object.className ++ "@" ++ String.ofList (Nat.toDigits 16 object.id.toNat)

end Instance

/-- A code unit on its own; half of a surrogate pair shows as the replacement character. -/
def unitText (unit : UInt16) : String :=
  let code := unit.toNat
  if 0xd800 ≤ code && code ≤ 0xdfff then "\ufffd" else String.singleton (Char.ofNat code)

/-- Numbers from a thousandth to below ten million are written without an exponent, and all with
a point. -/
def hostNumbers : Decimal.Style := ⟨"Infinity", ".0", "E", some (-3, 7)⟩

def floatText (bits : UInt32) : String := hostNumbers.render .single bits.toNat

def doubleText (bits : UInt64) : String := hostNumbers.render .double bits.toNat

def listText (texts : List String) : String := "[" ++ ", ".intercalate texts ++ "]"

namespace Elements

def texts : Elements → List String
  | booleans values => values.map toString
  | chars values => values.map unitText
  | bytes values => values.map toString
  | shorts values => values.map toString
  | ints values => values.map toString
  | longs values => values.map toString
  | floats values => values.map floatText
  | doubles values => values.map doubleText

end Elements

namespace Value

def isNull : Value → Bool
  | null => true
  | _ => false

/-- The number of elements of an array. -/
def length? : Value → Option Nat
  | array elements => some elements.texts.length
  | references _ values => some values.length
  | _ => none

/-- The text of a value. Strings show what the decoder reads; other objects, and strings that it
cannot read, show their identity. -/
def render (decode : Instance → Option String) : Value → String
  | void => "void"
  | null => "null"
  | boolean value => toString value
  | char unit => unitText unit
  | byte value => toString value
  | short value => toString value
  | int value => toString value
  | long value => toString value
  | float bits => floatText bits
  | double bits => doubleText bits
  | object target =>
    if target.isString then (decode target).getD target.text else target.text
  | array elements => listText elements.texts
  | references _ values => listText (values.map (render decode))

end Value
end Bytecode.Host
