import Bytecode.Verify.Violation

/-!
Frames: the locals and the operand stack in effect before an instruction, and how frames of
several paths merge into one.
-/

namespace Bytecode.Verify

/-- Local slots by number, and the operand stack with its top first. -/
structure Frame where
  locals : List Value
  stack : List Value
  deriving DecidableEq, Repr

/-- A merge of stacks that failed: why, and the stack with the entries below merged already. -/
structure StackConflict where
  violation : Violation
  stack : List Value

/-- A merge of frames that failed: why, and the frame that remains. -/
structure MergeFailure where
  violation : Violation
  remaining : Frame

/-- Stacks of equal height merge entry by entry, from the bottom up. -/
def mergeStack : List Value → List Value → Except StackConflict (List Value)
  | left :: lefts, right :: rights =>
    match mergeStack lefts rights with
    | .error conflict => .error { conflict with stack := left :: conflict.stack }
    | .ok below =>
      match left.merge right with
      | some merged => .ok (merged :: below)
      | none => .error ⟨.incompatibleStack lefts.length left right, left :: below⟩
  | lefts, _ => .ok lefts

/-- Locals that do not merge become unusable; slots of the left without a partner stay. -/
def mergeLocals (lefts rights : List Value) : List Value :=
  List.zipWith Value.join lefts rights ++
    lefts.drop rights.length

/-- Slots that the values of a stack take together. -/
def stackHeight : List Value → Nat
  | [] => 0
  | value :: rest => value.size + stackHeight rest

namespace Frame

def local? (frame : Frame) (slot : Nat) : Option Value := frame.locals[slot]?

/-- Stack height in slots. -/
def stackSize (frame : Frame) : Nat := stackHeight frame.stack

/-- The frame with one value on its stack. -/
def withStack (frame : Frame) (value : Value) : Frame := { frame with stack := [value] }

/-- Every local and stack entry equal to one value becomes another. -/
def replace (frame : Frame) (target replacement : Value) : Frame :=
  let swap (value : Value) : Value := if value = target then replacement else value
  ⟨frame.locals.map swap, frame.stack.map swap⟩

/-- The frame that stands for both. -/
def merge (frame incoming : Frame) : Except MergeFailure Frame :=
  if frame.stack.length ≠ incoming.stack.length then
    .error ⟨.stackHeight frame.stack.length incoming.stack.length, frame⟩
  else
    match mergeStack frame.stack incoming.stack with
    | .error conflict => .error ⟨conflict.violation, { frame with stack := conflict.stack }⟩
    | .ok stack => .ok ⟨mergeLocals frame.locals incoming.locals, stack⟩

/-- A merge with the incoming frame, if there is one, leaves every entry as it is. -/
def absorbs (frame incoming : Frame) : Bool :=
  (List.zipWith (fun held value => held.merge value == some held) frame.stack
    incoming.stack).all id &&
    (List.zipWith (fun held value => held.join value == held) frame.locals incoming.locals).all id

def listText (values : List Value) : String := ", ".intercalate (values.map Value.text)

def text (frame : Frame) : String :=
  s!"locals [{listText frame.locals}] stack [{listText frame.stack.reverse}]"

end Frame
end Bytecode.Verify
