import Bytecode.Method
import Bytecode.Proofs.StackForms
import Mathlib.Algebra.Ring.Nat

/-! A machine that knows of every value only what kind it is. It has its own table of what
instructions pop and push, and it faults where a real machine would go wrong. -/

namespace Bytecode

inductive Tag where
  | int | float | long | double | reference | returnAddress
  deriving DecidableEq, Repr

namespace Tag

def isWide : Tag → Bool
  | long | double => true
  | _ => false

def slots (tag : Tag) : Nat := if tag.isWide then 2 else 1

def ofType : FieldType → Tag
  | .float => float
  | .long => long
  | .double => double
  | .object _ | .array _ => reference
  | .boolean | .byte | .char | .short | .int => int

def ofConstant : Constant → Tag
  | .int _ => int
  | .long _ => long
  | .float _ => float
  | .double _ => double
  | .string _ | .type _ | .methodType _ | .handle _ => reference

def height (stack : List Tag) : Nat := (stack.map slots).sum

end Tag

/-- Kinds popped, the topmost first, and kinds pushed, the topmost first. -/
structure Signature where
  operands : List Tag
  results : List Tag
  deriving DecidableEq, Repr

namespace Signature
open Tag

/-- Opcodes without operands of their own that neither return nor move values of any kind. -/
def ofSimple? : Opcode → Option Signature
  | .nop => some ⟨[], []⟩
  | .aconstNull => some ⟨[], [reference]⟩
  | .iconstM1 | .iconst0 | .iconst1 | .iconst2 | .iconst3 | .iconst4 | .iconst5 => some ⟨[], [int]⟩
  | .lconst0 | .lconst1 => some ⟨[], [long]⟩
  | .fconst0 | .fconst1 | .fconst2 => some ⟨[], [float]⟩
  | .dconst0 | .dconst1 => some ⟨[], [double]⟩
  | .iaload | .baload | .caload | .saload => some ⟨[int, reference], [int]⟩
  | .laload => some ⟨[int, reference], [long]⟩
  | .faload => some ⟨[int, reference], [float]⟩
  | .daload => some ⟨[int, reference], [double]⟩
  | .aaload => some ⟨[int, reference], [reference]⟩
  | .iastore | .bastore | .castore | .sastore => some ⟨[int, int, reference], []⟩
  | .lastore => some ⟨[long, int, reference], []⟩
  | .fastore => some ⟨[float, int, reference], []⟩
  | .dastore => some ⟨[double, int, reference], []⟩
  | .aastore => some ⟨[reference, int, reference], []⟩
  | .iadd | .isub | .imul | .idiv | .irem | .iand | .ior | .ixor | .ishl | .ishr | .iushr =>
    some ⟨[int, int], [int]⟩
  | .ladd | .lsub | .lmul | .ldiv | .lrem | .land | .lor | .lxor => some ⟨[long, long], [long]⟩
  | .lshl | .lshr | .lushr => some ⟨[int, long], [long]⟩
  | .fadd | .fsub | .fmul | .fdiv | .frem => some ⟨[float, float], [float]⟩
  | .dadd | .dsub | .dmul | .ddiv | .drem => some ⟨[double, double], [double]⟩
  | .ineg | .i2b | .i2c | .i2s => some ⟨[int], [int]⟩
  | .lneg => some ⟨[long], [long]⟩
  | .fneg => some ⟨[float], [float]⟩
  | .dneg => some ⟨[double], [double]⟩
  | .i2l => some ⟨[int], [long]⟩
  | .i2f => some ⟨[int], [float]⟩
  | .i2d => some ⟨[int], [double]⟩
  | .l2i => some ⟨[long], [int]⟩
  | .l2f => some ⟨[long], [float]⟩
  | .l2d => some ⟨[long], [double]⟩
  | .f2i => some ⟨[float], [int]⟩
  | .f2l => some ⟨[float], [long]⟩
  | .f2d => some ⟨[float], [double]⟩
  | .d2i => some ⟨[double], [int]⟩
  | .d2l => some ⟨[double], [long]⟩
  | .d2f => some ⟨[double], [float]⟩
  | .lcmp => some ⟨[long, long], [int]⟩
  | .fcmpl | .fcmpg => some ⟨[float, float], [int]⟩
  | .dcmpl | .dcmpg => some ⟨[double, double], [int]⟩
  | .arrayLength => some ⟨[reference], [int]⟩
  | .athrow | .monitorEnter | .monitorExit => some ⟨[reference], []⟩
  | _ => none

def ofJump? : Opcode → Option Signature
  | .goto => some ⟨[], []⟩
  | .jsr => some ⟨[], [returnAddress]⟩
  | .ifeq | .ifne | .iflt | .ifge | .ifgt | .ifle => some ⟨[int], []⟩
  | .ifIcmpeq | .ifIcmpne | .ifIcmplt | .ifIcmpge | .ifIcmpgt | .ifIcmple => some ⟨[int, int], []⟩
  | .ifAcmpeq | .ifAcmpne => some ⟨[reference, reference], []⟩
  | .ifnull | .ifnonnull => some ⟨[reference], []⟩
  | _ => none

def ofType? : Opcode → Option Signature
  | .new => some ⟨[], [reference]⟩
  | .newRefArray => some ⟨[int], [reference]⟩
  | .checkCast => some ⟨[reference], [reference]⟩
  | .instanceOf => some ⟨[reference], [int]⟩
  | _ => none

def ofField? (type : FieldType) : Opcode → Option Signature
  | .getStatic => some ⟨[], [ofType type]⟩
  | .putStatic => some ⟨[ofType type], []⟩
  | .getField => some ⟨[reference], [ofType type]⟩
  | .putField => some ⟨[ofType type, reference], []⟩
  | _ => none

/-- The last argument is on top, the receiver below all of them. -/
def ofCall (type : MethodType) (static : Bool) : Signature :=
  ⟨(type.parameters.map ofType).reverse ++ if static then [] else [reference],
    (type.result.map ofType).toList⟩

end Signature

/-- What the machine does for an instruction. -/
inductive Rule where
  | exchange (signature : Signature)
  | shuffle (opcode : Opcode)
  | load (slot : Nat) (tag : Tag)
  | consult (slot : Nat) (tag : Tag)
  | store (slot : Nat) (tags : List Tag)
  | leave (returned : Option Tag)
  deriving DecidableEq, Repr

namespace Rule
open Tag

def ofSimple (opcode : Opcode) : Rule :=
  match opcode with
  | .ireturn => leave (some int)
  | .lreturn => leave (some long)
  | .freturn => leave (some float)
  | .dreturn => leave (some double)
  | .areturn => leave (some reference)
  | .returnVoid => leave none
  | opcode =>
    match Signature.ofSimple? opcode with
    | some signature => exchange signature
    | none => shuffle opcode

def ofVariable? (slot : Nat) : Opcode → Option Rule
  | .iload => some (load slot int)
  | .lload => some (load slot long)
  | .fload => some (load slot float)
  | .dload => some (load slot double)
  | .aload => some (load slot reference)
  | .istore => some (store slot [int])
  | .lstore => some (store slot [long])
  | .fstore => some (store slot [float])
  | .dstore => some (store slot [double])
  | .astore => some (store slot [reference, returnAddress])
  | .ret => some (consult slot returnAddress)
  | _ => none

def ofInt? : Opcode → Option Rule
  | .bipush | .sipush => some (exchange ⟨[], [int]⟩)
  | .newArray => some (exchange ⟨[int], [reference]⟩)
  | _ => none

def of? : Instruction → Option Rule
  | .label _ | .line .. => some (exchange ⟨[], []⟩)
  | .simple opcode => some (ofSimple opcode)
  | .int opcode _ => ofInt? opcode
  | .variable opcode slot => ofVariable? slot.toNat opcode
  | .increment slot _ => some (consult slot.toNat int)
  | .jump opcode _ => (Signature.ofJump? opcode).map exchange
  | .constant value => some (exchange ⟨[], [ofConstant value]⟩)
  | .type opcode _ => (Signature.ofType? opcode).map exchange
  | .field opcode _ _ descriptor =>
    (FieldType.parse descriptor).toOption.bind fun type =>
      (Signature.ofField? type opcode).map exchange
  | .method opcode _ _ descriptor _ =>
    (MethodType.parse descriptor).toOption.map fun type =>
      exchange (.ofCall type (opcode == .invokeStatic))
  | .callSite _ descriptor _ _ =>
    (MethodType.parse descriptor).toOption.map fun type => exchange (.ofCall type true)
  | .tableSwitch .. | .lookupSwitch .. => some (exchange ⟨[int], []⟩)
  | .newArrays _ dimensions =>
    some (exchange ⟨List.replicate dimensions.toNat int, [reference]⟩)

end Rule

inductive Fault where
  | emptyStack
  | wrongOperand (found : Tag)
  | stackOverflow
  /-- No form of the opcode fits the top of the stack. -/
  | noForm (opcode : Opcode)
  | noLocal (slot : Nat)
  | unsetLocal (slot : Nat)
  | wrongLocal (found : Tag)
  | wrongReturn (returned : Option Tag)
  | noRule
  | outsideCode (index : Nat)
  deriving DecidableEq, Repr

structure TagState where
  locals : List (Option Tag)
  stack : List Tag
  deriving DecidableEq, Repr

structure TagMachine where
  instructions : Array Instruction
  maxStack : Nat
  returned : Option Tag
  entry : TagState

namespace TagMachine

def popTags : List Tag → List Tag → Except Fault (List Tag)
  | [], stack => .ok stack
  | _ :: _, [] => .error .emptyStack
  | wanted :: more, found :: below =>
    if found = wanted then popTags more below else .error (.wrongOperand found)

def pushTags (machine : TagMachine) (tags stack : List Tag) : Except Fault (List Tag) :=
  if tags = [] ∨ Tag.height (tags ++ stack) ≤ machine.maxStack then .ok (tags ++ stack)
  else .error .stackOverflow

def read (locals : List (Option Tag)) (slot : Nat) (wanted : Tag) : Except Fault Unit :=
  match locals[slot]? with
  | none => .error (.noLocal slot)
  | some none => .error (.unsetLocal slot)
  | some (some found) => if found = wanted then .ok () else .error (.wrongLocal found)

/-- A wide value also takes the slot after its own; a store over either half unsets it. -/
def writeCell (slot : Nat) (tag : Tag) (index : Nat) (old : Option Tag) : Option Tag :=
  if index = slot then some tag
  else if index = slot + 1 ∧ tag.isWide then none
  else if index + 1 = slot ∧ old.any Tag.isWide then none
  else old

def write (locals : List (Option Tag)) (slot : Nat) (tag : Tag) : Except Fault (List (Option Tag)) :=
  if slot + tag.slots ≤ locals.length then .ok (locals.mapIdx (writeCell slot tag))
  else .error (.noLocal slot)

def apply (machine : TagMachine) (rule : Rule) (state : TagState) : Except Fault TagState :=
  match rule with
  | .exchange signature => do
    let rest ← popTags signature.operands state.stack
    let stack ← machine.pushTags signature.results rest
    return { state with stack }
  | .shuffle opcode =>
    match (StackForm.ofOpcode opcode).find? fun form =>
        (state.stack.take form.taken.length).map Tag.isWide = form.taken with
    | none => .error (.noForm opcode)
    | some form => do
      let taken := state.stack.take form.taken.length
      let stack ← machine.pushTags (form.arrange taken) (state.stack.drop form.taken.length)
      return { state with stack }
  | .load slot tag => do
    read state.locals slot tag
    let stack ← machine.pushTags [tag] state.stack
    return { state with stack }
  | .consult slot tag => do
    read state.locals slot tag
    return state
  | .store slot tags =>
    match state.stack with
    | [] => .error .emptyStack
    | tag :: stack => do
      if tag ∉ tags then throw (.wrongOperand tag)
      let locals ← write state.locals slot tag
      return { locals, stack }
  | .leave returned => do
    if returned ≠ machine.returned then throw (.wrongReturn returned)
    let stack ← popTags returned.toList state.stack
    return { state with stack }

def step (machine : TagMachine) (index : Nat) (state : TagState) : Except Fault TagState :=
  match machine.instructions[index]? with
  | none => .error (.outsideCode index)
  | some instruction =>
    match Rule.of? instruction with
    | none => .error .noRule
    | some rule => machine.apply rule state

end TagMachine

namespace TagState

/-- The second half of a wide value has a cell of its own, which is never set. -/
def cells (tag : Tag) : List (Option Tag) := some tag :: List.replicate (tag.slots - 1) none

def entry (arguments : List Tag) (count : Nat) : TagState :=
  let placed := arguments.flatMap cells
  ⟨placed ++ List.replicate (count - placed.length) none, []⟩

end TagState

/-- Starts with the receiver, if there is one, and the arguments. -/
def Method.tagMachine (method : Method) (type : MethodType) (maxStack : Nat) : TagMachine where
  instructions := method.instructions
  maxStack
  returned := type.result.map Tag.ofType
  entry :=
    let receiver := if method.access.isStatic then [] else [Tag.reference]
    .entry (receiver ++ type.parameters.map Tag.ofType) method.maxLocals.toNat

end Bytecode
