import Bytecode.Verify.Effect

/-!
The effect of every instruction on the frame before it.
-/

namespace Bytecode.Verify

/-- What instructions need to know of the method they stand in. -/
structure Surroundings where
  declaringType : String
  isConstructor : Bool
  result : Option FieldType
  maxStack : Nat
  deriving Repr

namespace Step

/-- The element of an array of references; of an array known only as an object, any object. -/
def arrayElement (array : Value) : Except Violation Value :=
  match array with
  | .null => .ok .null
  | .reference name =>
    match name.toList with
    | '[' :: element =>
      match FieldType.parse? element with
      | some type =>
        if type.isReference then .ok (Value.ofType type)
        else .error (.typeMismatch .referenceArray (.name name))
      | none => .error (.typeMismatch .referenceArray (.name name))
    | _ => .ok (.reference objectName)
  | other => .error (.typeMismatch .array (.value other))

/-- Rearranges the top of the stack without regard to types, never splitting a wide value. -/
def shuffle (limit : Nat) (opcode : Opcode) : Step Unit := do
  match opcode with
  | .pop =>
    let _ ← popSingle opcode
  | .pop2 =>
    let first ← pop
    if first.isWide then pure ()
    else
      let _ ← popSingle opcode
  | .dup =>
    let first ← popSingle opcode
    pushAll limit [first, first]
  | .dupX1 =>
    let first ← popSingle opcode
    let second ← popSingle opcode
    pushAll limit [first, second, first]
  | .dupX2 =>
    let first ← popSingle opcode
    let second ← pop
    if second.isWide then pushAll limit [first, second, first]
    else
      let third ← popSingle opcode
      pushAll limit [first, third, second, first]
  | .dup2 =>
    let first ← pop
    if first.isWide then pushAll limit [first, first]
    else
      let second ← popSingle opcode
      pushAll limit [second, first, second, first]
  | .dup2X1 =>
    let first ← pop
    let second ← popSingle opcode
    if first.isWide then pushAll limit [first, second, first]
    else
      let third ← popSingle opcode
      pushAll limit [second, first, third, second, first]
  | .dup2X2 =>
    let first ← pop
    if first.isWide then
      let second ← pop
      if second.isWide then pushAll limit [first, second, first]
      else
        let third ← popSingle opcode
        pushAll limit [first, third, second, first]
    else
      let second ← popSingle opcode
      let third ← pop
      if third.isWide then pushAll limit [second, first, third, second, first]
      else
        let fourth ← popSingle opcode
        pushAll limit [second, first, fourth, third, second, first]
  | .swap =>
    let first ← popSingle opcode
    let second ← popSingle opcode
    pushAll limit [first, second]
  | _ => fail (.foreignOpcode opcode)

/-- A return gives back what the method declares, and a constructor has called another one. -/
def leave (around : Surroundings) (opcode : Opcode) (returned : Option Demand) : Step Unit := do
  if returned = around.result.map Demand.ofType then
    match around.result with
    | some type =>
      let _ ← popAs (Demand.ofType type)
    | none => pure ()
    let frame ← get
    match around.isConstructor, frame.local? 0 with
    | true, some (.uninitializedThis name) =>
      fail (.typeMismatch .initializedThis (.value (.uninitializedThis name)))
    | _, _ => pure ()
  else fail (.returnMismatch around.result opcode)

def simple (around : Surroundings) (opcode : Opcode) : Step Unit :=
  match Effect.ofSimple? opcode with
  | some effect => effect.run around.maxStack
  | none =>
    match Effect.ofReturn? opcode with
    | some returned => leave around opcode returned
    | none =>
      if opcode = .aaload then do
        let _ ← popAs Effect.int
        let array ← popAs .reference
        let element ← (arrayElement array : Except Violation Value)
        push around.maxStack element
      else shuffle around.maxStack opcode

def int (limit : Nat) (opcode : Opcode) (operand : Int32) : Step Unit :=
  match opcode with
  | .bipush | .sipush => push limit .int
  | .newArray => do
    let _ ← popAs Effect.int
    match Opcode.arrayDescriptor? operand with
    | some descriptor => push limit (.reference descriptor)
    | none => fail (.typeMismatch .arrayTypeCode (.code operand))
  | _ => fail (.foreignOpcode opcode)

/-- The value that a load or store of one kind moves. -/
def accessKind? : Opcode → Option Value
  | .iload | .istore => some .int
  | .lload | .lstore => some .long
  | .fload | .fstore => some .float
  | .dload | .dstore => some .double
  | .aload => some (.reference objectName)
  | _ => none

def localAccess (limit : Nat) (opcode : Opcode) (slot : Nat) : Step Unit :=
  match opcode, accessKind? opcode with
  | .astore, _ => do
    let value ← pop
    if value.isReference || value == .returnAddress then store slot value
    else fail (.typeMismatch .referenceOrReturnAddress (.value value))
  | .ret, _ => do
    let _ ← load slot .returnAddress
  | opcode, some kind =>
    if opcode.isStore then do
      let value ← popAs (.exactly kind)
      store slot value
    else do
      let value ← load slot kind
      push limit value
  | opcode, none => fail (.foreignOpcode opcode)

def loadedConstant : Constant → Value
  | .int _ => .int
  | .long _ => .long
  | .float _ => .float
  | .double _ => .double
  | .string _ => .reference "java/lang/String"
  | .type _ => .reference "java/lang/Class"
  | .methodType _ => .reference "java/lang/invoke/MethodType"
  | .handle _ => .reference "java/lang/invoke/MethodHandle"

def type (limit site : Nat) (opcode : Opcode) (name : String) : Step Unit :=
  match opcode with
  | .new => push limit (.uninitialized site name)
  | .newRefArray => do
    let _ ← popAs Effect.int
    push limit (.reference ("[" ++ nameDescriptor name))
  | .checkCast => do
    let _ ← popAs .reference
    push limit (.reference name)
  | .instanceOf => do
    let _ ← popAs .reference
    push limit .int
  | _ => fail (.foreignOpcode opcode)

def field (limit : Nat) (opcode : Opcode) (descriptor : String) : Step Unit :=
  match FieldType.parse descriptor with
  | .error error => fail (.typeMismatch .fieldDescriptor (.descriptor error))
  | .ok type =>
    match opcode with
    | .getStatic => push limit (Value.ofType type)
    | .putStatic => popEach [Demand.ofType type]
    | .getField => do
      let _ ← popAs .reference
      push limit (Value.ofType type)
    | .putField => popEach [Demand.ofType type, .reference]
    | _ => fail (.foreignOpcode opcode)

/-- A constructor call makes an object of its receiver; any other call asks for one. -/
def receive (around : Surroundings) (constructing : Bool) (owner : String) : Step Unit := do
  let receiver ← popAs .reference
  if constructing then
    match receiver with
    | .uninitializedThis _ => initializeAll receiver (.reference around.declaringType)
    | .uninitialized _ name => initializeAll receiver (.reference name)
    | other => fail (.typeMismatch (.uninitialized owner) (.value other))
  else if receiver.isUninitialized then
    fail (.typeMismatch .initializedReference (.value receiver))
  else pure ()

def pushResult (limit : Nat) : Option FieldType → Step Unit
  | some type => push limit (Value.ofType type)
  | none => pure ()

/-- Pops the arguments, the last one first, takes the receiver, and pushes the result. -/
def call (limit : Nat) (descriptor : String) (takeReceiver : Step Unit) : Step Unit :=
  match MethodType.parse descriptor with
  | .error error => fail (.typeMismatch .methodDescriptor (.descriptor error))
  | .ok type => do
    popEach (type.parameters.reverse.map Demand.ofType)
    takeReceiver
    pushResult limit type.result

def constructorName : String := "<init>"

end Step

/-- The effect of the instruction at an index. -/
def transfer (around : Surroundings) (index : Nat) (instruction : Instruction) : Step Unit :=
  let limit := around.maxStack
  match instruction with
  | .label _ | .line .. => pure ()
  | .simple opcode => Step.simple around opcode
  | .int opcode operand => Step.int limit opcode operand
  | .variable opcode slot => Step.localAccess limit opcode slot.toNat
  | .increment slot _ => do
    let _ ← Step.load slot.toNat .int
  | .jump opcode _ =>
    match Effect.ofJump? opcode with
    | some effect => effect.run limit
    | none => Step.fail (.foreignOpcode opcode)
  | .constant value => Step.push limit (Step.loadedConstant value)
  | .type opcode name => Step.type limit index opcode name
  | .field opcode _ _ descriptor => Step.field limit opcode descriptor
  | .method opcode owner name descriptor _ =>
    Step.call limit descriptor <|
      if opcode = .invokeStatic then pure ()
      else
        Step.receive around (opcode == .invokeSpecial && name == Step.constructorName) owner
  | .callSite _ descriptor _ _ => Step.call limit descriptor (pure ())
  | .tableSwitch .. | .lookupSwitch .. => Step.popEach [Effect.int]
  | .newArrays descriptor dimensions => do
    Step.popEach (List.replicate dimensions.toNat Effect.int)
    Step.push limit (.reference descriptor)

end Bytecode.Verify
