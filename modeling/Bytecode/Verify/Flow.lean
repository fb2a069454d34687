import Bytecode.Method
import Bytecode.Verify.Frame

/-!
Where control can go in a method: its instructions with labels and exception ranges resolved to
indices.
-/

namespace Bytecode.Verify

/-- An exception range by indices, the end not included. -/
structure HandlerRange where
  start : Nat
  stop : Nat
  entry : Nat
  caught : String
  deriving DecidableEq, Repr

structure Flow where
  instructions : Array Instruction
  handlers : List HandlerRange
  deriving Repr

/-- The index that a label marks; of two equal labels the later one counts. -/
def position? (instructions : Array Instruction) (label : Label) : Option Nat :=
  let marks := instructions.toList.zipIdx.filter fun (instruction, _) =>
    instruction == .label label
  marks.getLast?.map (·.2)

/-- The first label that is referred to and not placed, in the order of the code. -/
def unknownLabel? (instructions : Array Instruction) : Option Rejection :=
  instructions.toList.zipIdx.findSome? fun (instruction, index) =>
    (instruction.references.find? fun label => (position? instructions label).isNone).map
      fun label => ⟨index, .unknownLabel label⟩

/-- Resolves the range of a number; it has to cover something. -/
def HandlerRange.ofRange (instructions : Array Instruction) (number : Nat)
    (range : ExceptionRange) : Except Rejection HandlerRange := do
  let find (label : Label) : Except Rejection Nat :=
    match position? instructions label with
    | some index => .ok index
    | none => .error ⟨0, .unknownLabel label⟩
  let start ← find range.start
  let stop ← find range.stop
  let entry ← find range.handler
  if stop ≤ start then throw ⟨start, .invertedRange number⟩
  return { start, stop, entry, caught := range.caught.getD throwableName }

namespace Flow

def ofMethod (method : Method) : Except Rejection Flow := do
  match unknownLabel? method.instructions with
  | some rejection => throw rejection
  | none => pure ()
  let handlers ← method.ranges.zipIdx.mapM fun (range, number) =>
    HandlerRange.ofRange method.instructions number range
  return { instructions := method.instructions, handlers }

def size (flow : Flow) : Nat := flow.instructions.size

/-- The ranges that cover an index, in the order they are searched. -/
def handlersAt (flow : Flow) (index : Nat) : List HandlerRange :=
  flow.handlers.filter fun handler => handler.start ≤ index && index < handler.stop

def isHandlerEntry (flow : Flow) (index : Nat) : Bool :=
  flow.handlers.any (·.entry == index)

/-- The instructions after each call of a subroutine. -/
def subroutineReturns (flow : Flow) : List Nat :=
  flow.instructions.toList.zipIdx.filterMap fun (instruction, index) =>
    match instruction with
    | .jump .jsr _ => some (index + 1)
    | _ => none

/-- The index of a label; one that is not placed lies outside the code. -/
def target (flow : Flow) (label : Label) : Nat :=
  (position? flow.instructions label).getD flow.size

/-- Where control can go from the instruction at an index, other than by a throw. -/
def successors (flow : Flow) (index : Nat) (instruction : Instruction) : List Nat :=
  match instruction with
  | .jump opcode label =>
    if opcode.isConditional then [flow.target label, index + 1] else [flow.target label]
  | .tableSwitch _ _ fallback targets => (fallback :: targets).map flow.target
  | .lookupSwitch fallback _ targets => (fallback :: targets).map flow.target
  | .variable .ret _ => flow.subroutineReturns
  | .simple opcode => if opcode.endsFlow then [] else [index + 1]
  | _ => [index + 1]

end Flow
end Bytecode.Verify
