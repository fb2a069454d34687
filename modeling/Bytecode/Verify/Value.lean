import Bytecode.Descriptor

/-!
Abstract values: what the verifier knows of a local slot or of an entry of the operand stack.
-/

namespace Bytecode.Verify

inductive Value where
  /-- Unset or unusable, as is the slot after a `long` or `double`. -/
  | empty
  /-- An `int` or any narrower integer. -/
  | int
  | float
  | long
  | double
  | null
  /-- An initialized object, by internal name or array descriptor. -/
  | reference (name : String)
  /-- The receiver of a constructor before another constructor ran on it. -/
  | uninitializedThis (name : String)
  /-- The object made by the `NEW` at a site, before its constructor ran. -/
  | uninitialized (site : Nat) (name : String)
  /-- Where a subroutine returns to. -/
  | returnAddress
  deriving DecidableEq, Repr

def objectName : String := "java/lang/Object"

def throwableName : String := "java/lang/Throwable"

namespace Value

/-- The value that a field, parameter or result of a type holds. -/
def ofType : FieldType → Value
  | .boolean | .byte | .char | .short | .int => int
  | .float => float
  | .long => long
  | .double => double
  | .object name => reference name
  | .array element => reference (FieldType.array element).descriptor

/-- Slots that the value takes. -/
def size : Value → Nat
  | long | double => 2
  | _ => 1

def isWide (value : Value) : Bool := value.size == 2

def isEmpty (value : Value) : Bool := value == empty

def isReference : Value → Bool
  | null | reference _ | uninitializedThis _ | uninitialized .. => true
  | _ => false

def isUninitialized : Value → Bool
  | uninitializedThis _ | uninitialized .. => true
  | _ => false

/-- The descriptor of a variable that can hold the value. -/
def descriptor? : Value → Option String
  | int => some "I"
  | float => some "F"
  | long => some "J"
  | double => some "D"
  | null => some (nameDescriptor objectName)
  | reference name | uninitializedThis name | uninitialized _ name => some (nameDescriptor name)
  | empty | returnAddress => none

/-- The least value that both can be seen as. -/
def merge (left right : Value) : Option Value :=
  if left = right then some left
  else
    match left, right with
    | null, reference _ => some right
    | reference _, null => some left
    | reference _, reference _ => some (reference objectName)
    | _, _ => none

/-- The merge of two locals; without one the local is unusable. -/
def join (left right : Value) : Value := (left.merge right).getD empty

def text : Value → String
  | empty => "empty"
  | int => "int"
  | float => "float"
  | long => "long"
  | double => "double"
  | null => "null"
  | reference name => name
  | uninitializedThis _ => "uninitializedThis"
  | uninitialized site name => s!"uninitialized {name} (new at {site})"
  | returnAddress => "returnAddress"

end Value
end Bytecode.Verify
