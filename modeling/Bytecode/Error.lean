import Bytecode.Listing
import Bytecode.Verify.Violation

/-!
Why a method does not assemble. Every cause but a missing definition carries the line to show it
at, as far as one is known.
-/

namespace Bytecode

/-- The place of a statement where a label is named. -/
inductive LabelSite where
  | start
  | stop
  | handler
  | operand
  deriving DecidableEq, Repr

/-- An operand that its instruction cannot take. -/
inductive OperandFault where
  | shape (opcode : Opcode) (wanted : OperandShape)
  | value (opcode : Opcode) (found : Int32)
  | amount (found : Int32)
  | handleKind (kind : UInt8)
  | invertedSwitch (least most : Int32)
  | switchTargets (needed : Int) (found : Nat)
  | switchKeys (keys targets : Nat)
  | keyOrder
  | dimensions (count : UInt8) (descriptor : String)
  | slotOutOfRange (slot width : UInt16)
  | noFreeSlot (name : String)
  deriving DecidableEq, Repr

inductive CompileError where
  | problems (first : Problem) (rest : List Problem)
  | missingDefinition
  | unresolvedLabel (site : LabelSite) (name : String) (line : Nat)
  | duplicateLabel (name : String) (line firstLine : Nat)
  | undeclaredVariable (name : String) (line : Nat)
  | invalidOperand (line : Nat) (fault : OperandFault)
  | descriptor (line : Nat) (cause : DescriptorError)
  /-- A rule broken at an index of the code, with the line and instruction found there. -/
  | verification (index : Nat) (line : Option Nat) (instruction : Option Instruction)
      (violation : Verify.Violation)
  deriving DecidableEq, Repr

def LabelSite.text : LabelSite → String
  | start => "try-catch start"
  | stop => "try-catch end"
  | handler => "try-catch handler"
  | operand => "instruction operand"

def OperandFault.text : OperandFault → String
  | shape opcode wanted => s!"{opcode.mnemonic} does not take {wanted.text} operands"
  | value opcode found => s!"{opcode.mnemonic} operand {found} out of range"
  | amount found => s!"IINC increment {found} out of range"
  | handleKind kind => s!"unknown method handle kind {kind}"
  | invertedSwitch least most => s!"TABLESWITCH range {least}..{most} is inverted"
  | switchTargets needed found => s!"TABLESWITCH needs {needed} labels, found {found}"
  | switchKeys keys targets => s!"LOOKUPSWITCH has {keys} keys but {targets} labels"
  | keyOrder => "LOOKUPSWITCH keys must be strictly ascending"
  | dimensions count descriptor => s!"MULTIANEWARRAY dimensions {count} invalid for {descriptor}"
  | slotOutOfRange slot width => s!"local slot {slot} of width {width} is out of range"
  | noFreeSlot name => s!"no free local slot for '{name}'"

namespace CompileError

/-- The line to show the error at. -/
def line? : CompileError → Option Nat
  | .problems first _ => some first.line
  | .missingDefinition => none
  | .unresolvedLabel _ _ line | .duplicateLabel _ line _ | .undeclaredVariable _ line => some line
  | .invalidOperand line _ | .descriptor line _ => some line
  | .verification _ line _ _ => line

/-- The text of the instruction that broke a rule; empty where no instruction stands. -/
def instructionText : Option Instruction → String
  | some instruction => instruction.text
  | none => ""

def message : CompileError → String
  | .problems first rest =>
    s!"AST must not contain errors: {rest.length + 1} problem(s), first at line {first.line}"
  | .missingDefinition => "AST must have definition statement"
  | .unresolvedLabel site name line =>
    s!"No label associated with {site.text}: {name} (line {line})"
  | .duplicateLabel name line firstLine =>
    s!"Label '{name}' placed twice: line {line}, first placed at line {firstLine}"
  | .undeclaredVariable name line => s!"Use of undeclared variable '{name}' (line {line})"
  | .invalidOperand line fault => s!"Invalid operand at line {line}: {fault.text}"
  | .descriptor line cause => s!"Invalid descriptor at line {line}: {cause.message}"
  | .verification index line instruction violation =>
    let place := match line with
      | some line => s!" (line {line})"
      | none => ""
    s!"Verification failed at instruction {index} \x60{instructionText instruction}\x60{place}: " ++
      violation.message

end CompileError
end Bytecode
