import Bytecode.Method
import Bytecode.Slots.Table

/-!
One operation, with its names resolved and its operands checked, as an instruction record.
-/

namespace Bytecode

/-- What the names of an operation are resolved against, and the line it stands on. -/
structure Scope where
  labels : LabelTable
  slots : SlotTable
  aliases : Aliases
  line : Nat

/-- The shape of the operands of a record that carries an opcode. -/
def Operation.shape? : Operation → Option (Opcode × OperandShape)
  | .simple opcode => some (opcode, .none)
  | .int opcode _ => some (opcode, .int)
  | .variable opcode _ => some (opcode, .slot)
  | .jump opcode _ => some (opcode, .jump)
  | .type opcode _ => some (opcode, .type)
  | .field opcode .. => some (opcode, .field)
  | .method opcode .. => some (opcode, .method)
  | _ => none

/-- Whether an opcode can be given an integer. -/
def Opcode.takesInt (opcode : Opcode) (operand : Int32) : Bool :=
  match opcode with
  | .bipush => -128 ≤ operand.toInt && operand.toInt ≤ 127
  | .sipush => -32768 ≤ operand.toInt && operand.toInt ≤ 32767
  | .newArray => (Opcode.arrayDescriptor? operand).isSome
  | _ => true

/-- Each number is below the next. -/
def isAscending : List Int32 → Bool
  | first :: second :: rest => first < second && isAscending (second :: rest)
  | _ => true

namespace Scope

def fail {α : Type} (scope : Scope) (fault : OperandFault) : Except CompileError α :=
  .error (.invalidOperand scope.line fault)

def resolve (scope : Scope) (name : String) : String := scope.aliases.resolve name

def label (scope : Scope) (name : String) : Except CompileError Label :=
  match scope.labels.get? (scope.resolve name) with
  | some label => .ok label
  | none => .error (.unresolvedLabel .operand (scope.resolve name) scope.line)

def slot (scope : Scope) (name : String) : Except CompileError UInt16 :=
  scope.slots.slot (scope.resolve name) scope.line

/-- A class or array. -/
def type (scope : Scope) (name : String) : Except CompileError String := do
  let _ ← checkedAt scope.line (FieldType.ofOperand (scope.resolve name))
  return scope.resolve name

def fieldDescriptor (scope : Scope) (descriptor : String) : Except CompileError String := do
  let _ ← checkedAt scope.line (FieldType.parse (scope.resolve descriptor))
  return scope.resolve descriptor

def methodDescriptor (scope : Scope) (descriptor : String) : Except CompileError String := do
  let _ ← checkedAt scope.line (MethodType.parse (scope.resolve descriptor))
  return scope.resolve descriptor

/-- Kinds one to four use a field, kinds five to nine a method. -/
def handle (scope : Scope) (handle : Handle) : Except CompileError Handle := do
  let owner ← scope.type handle.owner
  let kind := handle.kind.toNat
  let descriptor ←
    if 1 ≤ kind && kind ≤ 4 then scope.fieldDescriptor handle.descriptor
    else if 5 ≤ kind && kind ≤ 9 then scope.methodDescriptor handle.descriptor
    else scope.fail (.handleKind handle.kind)
  return { handle with owner, name := scope.resolve handle.name, descriptor }

def constant (scope : Scope) : Constant → Except CompileError Constant
  | .type name => return .type (← scope.type name)
  | .methodType descriptor => return .methodType (← scope.methodDescriptor descriptor)
  | .handle target => return .handle (← scope.handle target)
  | other => return other

def checkShape (scope : Scope) (operation : Operation) : Except CompileError Unit :=
  match operation.shape? with
  | some (opcode, wanted) =>
    if opcode.operands = wanted then .ok () else scope.fail (.shape opcode wanted)
  | none => .ok ()

end Scope

/-- Compiles an operation; the first fault in the order of its operands wins. -/
def Operation.compile (scope : Scope) (operation : Operation) :
    Except CompileError Instruction := do
  scope.checkShape operation
  match operation with
  | .simple opcode => return .simple opcode
  | .int opcode operand =>
    if opcode.takesInt operand then return .int opcode operand
    else scope.fail (.value opcode operand)
  | .variable opcode name => return .variable opcode (← scope.slot name)
  | .increment name amount =>
    if -32768 ≤ amount.toInt && amount.toInt ≤ 32767 then
      return .increment (← scope.slot name) amount.toInt16
    else scope.fail (.amount amount)
  | .jump opcode target => return .jump opcode (← scope.label target)
  | .constant value => return .constant (← scope.constant value)
  | .type opcode name => return .type opcode (← scope.type name)
  | .field opcode owner name descriptor =>
    let owner ← scope.type owner
    let descriptor ← scope.fieldDescriptor descriptor
    return .field opcode owner (scope.resolve name) descriptor
  | .method opcode owner name descriptor onInterface =>
    let owner ← scope.type owner
    let descriptor ← scope.methodDescriptor descriptor
    return .method opcode owner (scope.resolve name) descriptor onInterface
  | .callSite name descriptor bootstrap arguments =>
    -- the name of a call site is free text, and no alias stands for it
    let descriptor ← scope.methodDescriptor descriptor
    let arguments ← arguments.mapM scope.constant
    return .callSite name descriptor (← scope.handle bootstrap) arguments
  | .tableSwitch least most fallback targets =>
    if most < least then scope.fail (.invertedSwitch least most)
    else
      let needed := most.toInt - least.toInt + 1
      if (targets.length : Int) ≠ needed then scope.fail (.switchTargets needed targets.length)
      else
        let fallback ← scope.label fallback
        return .tableSwitch least most fallback (← targets.mapM scope.label)
  | .lookupSwitch fallback keys targets =>
    if keys.length ≠ targets.length then scope.fail (.switchKeys keys.length targets.length)
    else if !isAscending keys then scope.fail .keyOrder
    else
      let fallback ← scope.label fallback
      return .lookupSwitch fallback keys (← targets.mapM scope.label)
  | .newArrays descriptor dimensions =>
    let descriptor := scope.resolve descriptor
    let type ← checkedAt scope.line (FieldType.parse descriptor)
    if dimensions = 0 || type.dimensions < dimensions.toNat then
      scope.fail (.dimensions dimensions descriptor)
    else return .newArrays descriptor dimensions
  | .line start number => return .line number (← scope.label start)

end Bytecode
