import Bytecode.Verify.Frame

/-!
What instructions do to a frame, put together from pushes, pops, loads and stores that each check
their rule.
-/

namespace Bytecode.Verify

/-- A change of the frame that may break a rule. -/
abbrev Step := StateT Frame (Except Violation)

/-- What an instruction asks of an operand that it pops. -/
inductive Demand where
  | exactly (value : Value)
  | reference
  deriving DecidableEq, Repr

namespace Demand

/-- What the use of a value of a type asks for. -/
def ofType (type : FieldType) : Demand :=
  if type.isReference then reference else exactly (Value.ofType type)

def accepts : Demand → Value → Bool
  | exactly wanted, value => value == wanted
  | reference, value => value.isReference

def expectation : Demand → Expectation
  | exactly wanted => .value wanted
  | reference => .reference

end Demand

namespace Step

def fail {α : Type} (violation : Violation) : Step α := throw violation

/-- Pushes a value onto a stack of at most `limit` slots. -/
def push (limit : Nat) (value : Value) : Step Unit := fun frame =>
  if frame.stackSize + value.size ≤ limit then
    .ok ((), { frame with stack := value :: frame.stack })
  else .error (.stackOverflow limit)

/-- Pushes values in turn, so that the last ends on top. -/
def pushAll (limit : Nat) : List Value → Step Unit
  | [] => pure ()
  | value :: rest => do
    push limit value
    pushAll limit rest

def pop : Step Value := fun frame =>
  match frame.stack with
  | [] => .error .stackUnderflow
  | value :: rest => .ok (value, { frame with stack := rest })

/-- Pops a value that meets a demand. -/
def popAs (demand : Demand) : Step Value := do
  let value ← pop
  if demand.accepts value then pure value
  else fail (.typeMismatch demand.expectation (.value value))

/-- Pops a value for each demand, the first demand for the topmost value. -/
def popEach : List Demand → Step Unit
  | [] => pure ()
  | demand :: rest => do
    let _ ← popAs demand
    popEach rest

/-- Pops a value of one slot for an opcode that moves values of any type. -/
def popSingle (opcode : Opcode) : Step Value := do
  let value ← pop
  if value.isWide then fail (.wideOperand opcode value) else pure value

/-- The value of a local that can be used as the wanted one; any reference can be used as any
other. -/
def load (slot : Nat) (wanted : Value) : Step Value := fun frame =>
  match frame.local? slot with
  | none => .error (.localOutOfRange slot frame.locals.length)
  | some value =>
    let matching := match wanted with
      | .reference _ => value.isReference
      | wanted => value == wanted
    if value.isEmpty then .error (.emptyLocal slot)
    else if matching then .ok (value, frame)
    else .error (.typeMismatch (.value wanted) (.value value))

/-- A wide value loses its first half when its second is overwritten. -/
def clearWideBefore (locals : List Value) (slot : Nat) : List Value :=
  match slot with
  | 0 => locals
  | before + 1 =>
    if (locals[before]?.map Value.isWide).getD false then locals.set before .empty else locals

/-- Stores a value; the second slot of a wide value holds nothing. -/
def store (slot : Nat) (value : Value) : Step Unit := fun frame =>
  if slot + value.size ≤ frame.locals.length then
    let cleared := clearWideBefore frame.locals slot
    let halved := if value.isWide then cleared.set (slot + 1) .empty else cleared
    .ok ((), { frame with locals := halved.set slot value })
  else .error (.localOutOfRange slot frame.locals.length)

/-- Every copy of an object counts as initialized once its constructor ran. -/
def initializeAll (target replacement : Value) : Step Unit :=
  modify fun frame => frame.replace target replacement

end Step
end Bytecode.Verify
