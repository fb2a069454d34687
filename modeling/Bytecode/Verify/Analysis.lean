import Bytecode.Verify.Flow
import Bytecode.Verify.Transfer

/-!
The verifier: the frame before every instruction, found by following each edge of the flow until
no frame changes any more. Edges are followed in the order in which instructions are reached.
-/

namespace Bytecode.Verify

/-- The settings of a verification. -/
structure Verifier where
  declaringType : String
  maxStack : UInt16
  maxVisits : Nat
  deriving Repr

/-- Frames found so far, and the instructions whose frame has changed since they were visited. -/
structure Progress where
  frames : Array (Option Frame)
  queue : List Nat

/-- Lays out the arguments from a slot on; a wide one leaves its second slot empty. -/
def placeArguments (count slot : Nat) : List Value → Except Violation (List Value)
  | [] => .ok (List.replicate (count - slot) .empty)
  | value :: rest =>
    if slot + value.size ≤ count then
      (placeArguments count (slot + value.size) rest).map fun after =>
        value :: (List.replicate (value.size - 1) .empty ++ after)
    else .error (.localOutOfRange slot count)

namespace Progress

/-- Sets the frame of an instruction, which is then due for a visit. -/
def update (progress : Progress) (index : Nat) (frame : Frame) : Progress where
  frames := progress.frames.setIfInBounds index (some frame)
  queue := if progress.queue.contains index then progress.queue else progress.queue ++ [index]

/-- A frame comes in over an edge. -/
def arrive (progress : Progress) (flow : Flow) (source target : Nat) (incoming : Frame) :
    Except Rejection Progress :=
  match progress.frames[target]?.join with
  | none => .ok (progress.update target incoming)
  | some frame =>
    match frame.merge incoming with
    | .ok merged =>
      .ok (if frame.absorbs incoming then progress else progress.update target merged)
    | .error failure =>
      .error ⟨source,
        if flow.isHandlerEntry target then .handlerEntered target failure.violation
        else failure.violation⟩

end Progress

namespace Flow

/-- The frames that an instruction passes on: to its handlers the one before it with the thrown
object alone on the stack, to its successors the one after it. -/
def edges (flow : Flow) (around : Surroundings) (index : Nat) (instruction : Instruction)
    (before : Frame) : Except Rejection (List (Nat × Frame)) := do
  let thrown :=
    if instruction.isMarker then []
    else (flow.handlersAt index).map fun handler =>
      (handler.entry, before.withStack (.reference handler.caught))
  let ((), after) ← ((transfer around index instruction).run before).mapError (⟨index, ·⟩)
  let successors := flow.successors index instruction
  if successors.any (flow.size ≤ ·) then throw ⟨index, .fallsOffEnd⟩
  return thrown ++ successors.map fun target => (target, after)

def visit (flow : Flow) (around : Surroundings) (progress : Progress) (index : Nat) :
    Except Rejection Progress :=
  match flow.instructions[index]?, progress.frames[index]?.join with
  | some instruction, some before => do
    let edges ← flow.edges around index instruction before
    edges.foldlM (fun progress (target, frame) => progress.arrive flow index target frame) progress
  | _, _ => .ok progress

/-- Visits instructions until none is due, at most the given number of times. -/
def settle (flow : Flow) (around : Surroundings) (limit : Nat) :
    Nat → Progress → Except Rejection Progress
  | visits, progress =>
    match progress.queue with
    | [] => .ok progress
    | index :: rest =>
      match visits with
      | 0 => .error ⟨index, .visitLimit limit⟩
      | visits + 1 => do
        let progress ← flow.visit around { progress with queue := rest } index
        settle flow around limit visits progress

end Flow

namespace Verifier

/-- The frame at the start of a method: the receiver, then the parameters. -/
def initialFrame (verifier : Verifier) (method : Method) (type : MethodType) :
    Except Violation Frame := do
  let receiver : List Value :=
    if method.access.isStatic then []
    else if method.name == Step.constructorName then [.uninitializedThis verifier.declaringType]
    else [.reference verifier.declaringType]
  let locals ← placeArguments method.maxLocals.toNat 0
    (receiver ++ type.parameters.map Value.ofType)
  return ⟨locals, []⟩

def surroundings (verifier : Verifier) (method : Method) (type : MethodType) : Surroundings where
  declaringType := verifier.declaringType
  isConstructor := method.name == Step.constructorName
  result := type.result
  maxStack := verifier.maxStack.toNat

/-- The frame before every instruction of a method, if no rule is broken; instructions that
control does not reach have none. -/
def analyze (verifier : Verifier) (method : Method) :
    Except Rejection (Array (Option Frame)) := do
  if method.access.hasNoCode then return #[]
  if method.instructions.isEmpty then throw ⟨0, .fallsOffEnd⟩
  let type ← (MethodType.parse method.descriptor).mapError fun error =>
    ⟨0, .typeMismatch .methodDescriptor (.descriptor error)⟩
  let flow ← Flow.ofMethod method
  let initial ← (verifier.initialFrame method type).mapError (⟨0, ·⟩)
  let start : Progress := ⟨Array.replicate flow.size none, []⟩
  let settled ← flow.settle (verifier.surroundings method type) verifier.maxVisits
    verifier.maxVisits (start.update 0 initial)
  return settled.frames

end Verifier
end Bytecode.Verify
