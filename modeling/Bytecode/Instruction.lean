import Bytecode.Constant
import Bytecode.Opcode

/-!
Instruction records: one per label and per operation of a method, with labels as numbers and
variables as slots.
-/

namespace Bytecode

/-- A position marker, by its number within the method. Numbers are taken to fit 32 bits: a method has fewer than
2^32 label names. -/
structure Label where
  id : Nat
  deriving DecidableEq, Repr

inductive Instruction where
  /-- Marks a position. -/
  | label (mark : Label)
  /-- Gives the code from a label on a line number. -/
  | line (number : UInt32) (start : Label)
  | simple (opcode : Opcode)
  | int (opcode : Opcode) (operand : Int32)
  | variable (opcode : Opcode) (slot : UInt16)
  | increment (slot : UInt16) (amount : Int16)
  | jump (opcode : Opcode) (target : Label)
  | constant (value : Constant)
  | type (opcode : Opcode) (name : String)
  | field (opcode : Opcode) (owner name descriptor : String)
  | method (opcode : Opcode) (owner name descriptor : String) (onInterface : Bool)
  | callSite (name descriptor : String) (bootstrap : Handle) (arguments : List Constant)
  | tableSwitch (least most : Int32) (fallback : Label) (targets : List Label)
  | lookupSwitch (fallback : Label) (keys : List Int32) (targets : List Label)
  | newArrays (descriptor : String) (dimensions : UInt8)
  deriving DecidableEq, Repr

def Label.text (label : Label) : String := s!"L{label.id}"

namespace Instruction

def opcode? : Instruction → Option Opcode
  | .label _ | .line .. => none
  | .simple opcode | .int opcode _ | .variable opcode _ | .jump opcode _ => some opcode
  | .type opcode _ | .field opcode .. | .method opcode .. => some opcode
  | .increment .. => some .iinc
  | .constant _ => some .ldc
  | .callSite .. => some .invokeDynamic
  | .tableSwitch .. => some .tableSwitch
  | .lookupSwitch .. => some .lookupSwitch
  | .newArrays .. => some .multiNewArray

/-- Markers take a position in the code but never execute. -/
def isMarker : Instruction → Bool
  | .label _ | .line .. => true
  | _ => false

/-- The labels that an instruction refers to, in the order of its operands. -/
def references : Instruction → List Label
  | .line _ start => [start]
  | .jump _ target => [target]
  | .tableSwitch _ _ fallback targets => fallback :: targets
  | .lookupSwitch fallback _ targets => fallback :: targets
  | _ => []

def text : Instruction → String
  | .label mark => mark.text ++ ":"
  | .line number start => s!"LINE {start.text} {number}"
  | .simple opcode => opcode.mnemonic
  | .int opcode operand => s!"{opcode.mnemonic} {operand}"
  | .variable opcode slot => s!"{opcode.mnemonic} {slot}"
  | .increment slot amount => s!"IINC {slot} {amount}"
  | .jump opcode target => s!"{opcode.mnemonic} {target.text}"
  | .constant value => "LDC " ++ value.text
  | .type opcode name => s!"{opcode.mnemonic} {name}"
  | .field opcode owner name descriptor => s!"{opcode.mnemonic} {owner}.{name} {descriptor}"
  | .method opcode owner name descriptor _ => s!"{opcode.mnemonic} {owner}.{name}{descriptor}"
  | .callSite name descriptor bootstrap _ =>
    s!"INVOKEDYNAMIC {name}{descriptor} {bootstrap.text}"
  | .tableSwitch least most fallback targets =>
    s!"TABLESWITCH [{least}-{most}] " ++ String.join (targets.map (·.text ++ " ")) ++
      s!"default {fallback.text}"
  | .lookupSwitch fallback keys targets =>
    let cases := List.zipWith (fun key target => s!"{key}={target.text} ") keys targets
    "LOOKUPSWITCH " ++ String.join cases ++ s!"default {fallback.text}"
  | .newArrays descriptor dimensions => s!"MULTIANEWARRAY {descriptor} {dimensions}"

end Instruction
end Bytecode
