import Bytecode.Verify.Step

/-!
Opcodes whose effect on the stack is fixed: what they pop and what they push.
-/

namespace Bytecode.Verify

/-- Demands on the popped values, topmost first, and the value pushed after them. -/
structure Effect where
  pops : List Demand
  result : Option Value
  deriving DecidableEq, Repr

namespace Effect

def int : Demand := .exactly .int
def long : Demand := .exactly .long
def float : Demand := .exactly .float
def double : Demand := .exactly .double
def reference : Demand := .reference

/-- Two operands of one kind. -/
def binary (operand : Demand) (result : Value) : Effect := ⟨[operand, operand], some result⟩

def unary (operand : Demand) (result : Value) : Effect := ⟨[operand], some result⟩

def constant (value : Value) : Effect := ⟨[], some value⟩

/-- An index and an array. -/
def load (element : Value) : Effect := ⟨[int, reference], some element⟩

/-- An element, an index and an array. -/
def store (element : Demand) : Effect := ⟨[element, int, reference], none⟩

def run (limit : Nat) (effect : Effect) : Step Unit := do
  Step.popEach effect.pops
  match effect.result with
  | some value => Step.push limit value
  | none => pure ()

/-- The effect of an opcode that is written without operands. Those that move values of any type,
that return, or that load from an array of references have no fixed one. -/
def ofSimple? : Opcode → Option Effect
  | .nop => some ⟨[], none⟩
  | .aconstNull => some (constant .null)
  | .iconstM1 | .iconst0 | .iconst1 | .iconst2 | .iconst3 | .iconst4 | .iconst5 =>
    some (constant .int)
  | .lconst0 | .lconst1 => some (constant .long)
  | .fconst0 | .fconst1 | .fconst2 => some (constant .float)
  | .dconst0 | .dconst1 => some (constant .double)
  | .iaload | .baload | .caload | .saload => some (load .int)
  | .laload => some (load .long)
  | .faload => some (load .float)
  | .daload => some (load .double)
  | .iastore | .bastore | .castore | .sastore => some (store int)
  | .lastore => some (store long)
  | .fastore => some (store float)
  | .dastore => some (store double)
  | .aastore => some (store reference)
  | .iadd | .isub | .imul | .idiv | .irem | .ishl | .ishr | .iushr | .iand | .ior | .ixor =>
    some (binary int .int)
  | .ladd | .lsub | .lmul | .ldiv | .lrem | .land | .lor | .lxor => some (binary long .long)
  | .lshl | .lshr | .lushr => some ⟨[int, long], some .long⟩
  | .fadd | .fsub | .fmul | .fdiv | .frem => some (binary float .float)
  | .dadd | .dsub | .dmul | .ddiv | .drem => some (binary double .double)
  | .ineg | .i2b | .i2c | .i2s => some (unary int .int)
  | .lneg => some (unary long .long)
  | .fneg => some (unary float .float)
  | .dneg => some (unary double .double)
  | .i2l => some (unary int .long)
  | .i2f => some (unary int .float)
  | .i2d => some (unary int .double)
  | .l2i => some (unary long .int)
  | .l2f => some (unary long .float)
  | .l2d => some (unary long .double)
  | .f2i => some (unary float .int)
  | .f2l => some (unary float .long)
  | .f2d => some (unary float .double)
  | .d2i => some (unary double .int)
  | .d2l => some (unary double .long)
  | .d2f => some (unary double .float)
  | .lcmp => some (binary long .int)
  | .fcmpl | .fcmpg => some (binary float .int)
  | .dcmpl | .dcmpg => some (binary double .int)
  | .arrayLength => some (unary reference .int)
  | .athrow | .monitorEnter | .monitorExit => some ⟨[reference], none⟩
  | _ => none

/-- The effect of an opcode that is written with one branch target. -/
def ofJump? : Opcode → Option Effect
  | .goto => some ⟨[], none⟩
  | .jsr => some (constant .returnAddress)
  | .ifeq | .ifne | .iflt | .ifge | .ifgt | .ifle => some ⟨[int], none⟩
  | .ifIcmpeq | .ifIcmpne | .ifIcmplt | .ifIcmpge | .ifIcmpgt | .ifIcmple =>
    some ⟨[int, int], none⟩
  | .ifAcmpeq | .ifAcmpne => some ⟨[reference, reference], none⟩
  | .ifnull | .ifnonnull => some ⟨[reference], none⟩
  | _ => none

/-- The demand of a returning opcode on what it returns, if it returns something. -/
def ofReturn? : Opcode → Option (Option Demand)
  | .ireturn => some (some int)
  | .lreturn => some (some long)
  | .freturn => some (some float)
  | .dreturn => some (some double)
  | .areturn => some (some reference)
  | .returnVoid => some none
  | _ => none

end Effect
end Bytecode.Verify
