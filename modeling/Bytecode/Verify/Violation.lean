import Bytecode.Instruction
import Bytecode.Verify.Value

/-!
The rules that code can break, each with what broke it.
-/

namespace Bytecode.Verify

/-- What an instruction asks for and does not get. -/
inductive Expectation where
  | value (wanted : Value)
  | reference
  | referenceOrReturnAddress
  | initializedReference
  /-- An object whose constructor, of the named class, has yet to run. -/
  | uninitialized (owner : String)
  | initializedThis
  | array
  | referenceArray
  | arrayTypeCode
  | fieldDescriptor
  | methodDescriptor
  deriving DecidableEq, Repr

/-- What stands in its place. -/
inductive Finding where
  | value (found : Value)
  | name (text : String)
  | code (number : Int32)
  | descriptor (error : DescriptorError)
  deriving DecidableEq, Repr

inductive Violation where
  | stackUnderflow
  | stackOverflow (limit : Nat)
  | typeMismatch (expected : Expectation) (found : Finding)
  | incompatibleStack (depth : Nat) (left right : Value)
  | stackHeight (expected found : Nat)
  | localOutOfRange (slot count : Nat)
  | emptyLocal (slot : Nat)
  | fallsOffEnd
  | returnMismatch (expected : Option FieldType) (found : Opcode)
  /-- A try-catch range that covers nothing. -/
  | invertedRange (range : Nat)
  /-- Flow other than a throw enters a handler with another stack. -/
  | handlerEntered (handler : Nat) (cause : Violation)
  | unknownLabel (label : Label)
  /-- An instruction on single slots meets a value of two. -/
  | wideOperand (opcode : Opcode) (found : Value)
  /-- The opcode does not belong to the kind of its record. -/
  | foreignOpcode (opcode : Opcode)
  | visitLimit (limit : Nat)
  deriving DecidableEq, Repr

def Expectation.text : Expectation → String
  | value wanted => wanted.text
  | reference => "reference"
  | referenceOrReturnAddress => "reference or returnAddress"
  | initializedReference => "initialized reference"
  | uninitialized owner => s!"uninitialized {owner}"
  | initializedThis => "initialized this"
  | array => "array"
  | referenceArray => "reference array"
  | arrayTypeCode => "array type code"
  | fieldDescriptor => "field descriptor"
  | methodDescriptor => "method descriptor"

def Finding.text : Finding → String
  | value found => found.text
  | name text => text
  | code number => s!"{number}"
  | descriptor error => error.message

def resultText : Option FieldType → String
  | some type => type.descriptor
  | none => "void"

def Violation.message : Violation → String
  | stackUnderflow => "stack underflow: needs 1 value(s), found 0"
  | stackOverflow limit => s!"stack overflow: exceeds {limit} slot(s)"
  | typeMismatch expected found =>
    s!"type mismatch: expected {expected.text}, found {found.text}"
  | incompatibleStack depth left right =>
    s!"incompatible stack values at depth {depth}: {left.text} and {right.text}"
  | stackHeight expected found => s!"stack height mismatch on merge: {expected} and {found}"
  | localOutOfRange slot count => s!"local slot {slot} outside of {count} local(s)"
  | emptyLocal slot => s!"local slot {slot} holds no usable value"
  | fallsOffEnd => "execution falls off the end of the code"
  | returnMismatch expected found =>
    s!"return mismatch: method returns {resultText expected}, instruction returns " ++
      found.mnemonic
  | invertedRange range => s!"try-catch block {range} has an empty or inverted range"
  | handlerEntered handler cause =>
    s!"handler at instruction {handler} is entered with an incompatible stack: " ++ cause.message
  | unknownLabel label => s!"label {label.text} is not placed in the code"
  | wideOperand opcode found => s!"{opcode.mnemonic} cannot operate on a {found.text} value"
  | foreignOpcode opcode => s!"{opcode.mnemonic} cannot operate on a operand value"
  | visitLimit limit => s!"no fixed point after {limit} instruction visits"

/-- A broken rule and the index of the instruction that broke it. -/
structure Rejection where
  index : Nat
  violation : Violation
  deriving DecidableEq, Repr

def Rejection.message (rejection : Rejection) : String :=
  s!"instruction {rejection.index}: {rejection.violation.message}"

end Bytecode.Verify
