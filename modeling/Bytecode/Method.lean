import Bytecode.Alias
import Bytecode.Error
import Bytecode.LabelTable

/-!
Methods: the header that a listing defines, the exception ranges, and the assembled whole that a
class-file writer takes.
-/

namespace Bytecode

/-- The header of a method, with aliases resolved. -/
structure Header where
  access : AccessFlags
  name : String
  descriptor : String
  signature : Option String
  /-- Declared thrown classes, in the order of declaration. -/
  exceptions : List String
  parameters : List Parameter
  /-- Where the definition stands. -/
  line : Nat
  deriving DecidableEq, Repr

/-- A protected range with its handler. -/
structure ExceptionRange where
  start : Label
  stop : Label
  handler : Label
  caught : Option String
  deriving DecidableEq, Repr

/-- An entry of the local variable table. -/
structure LocalVariable where
  name : String
  index : UInt16
  descriptor : String
  start : Label
  stop : Label
  deriving DecidableEq, Repr

structure Method where
  access : AccessFlags
  name : String
  descriptor : String
  signature : Option String
  exceptions : List String
  instructions : Array Instruction
  /-- Searched from the first to the last when something is thrown, so never reordered. -/
  ranges : List ExceptionRange
  /-- Missing if no table is asked for. -/
  variableTable : Option (List LocalVariable)
  maxStack : UInt16
  maxLocals : UInt16
  deriving DecidableEq, Repr

/-- A descriptor error belongs to a line. -/
def checkedAt {α : Type} (line : Nat) (checked : Except DescriptorError α) :
    Except CompileError α :=
  checked.mapError (.descriptor line)

namespace Header

/-- Reads the first definition, the first signature and every thrown class. -/
def ofListing (listing : Listing) (aliases : Aliases) : Except CompileError Header := do
  let some (line, definition) := listing.definition? | throw .missingDefinition
  let parameters := definition.parameters.map fun parameter =>
    { parameter with descriptor := aliases.resolve parameter.descriptor }
  let _ ← parameters.mapM fun parameter => checkedAt line (FieldType.parse parameter.descriptor)
  let descriptor := "(" ++ String.join (parameters.map (·.descriptor)) ++ ")" ++
    aliases.resolve definition.result
  let _ ← checkedAt line (MethodType.parse descriptor)
  return {
    access := definition.access
    name := definition.name
    descriptor
    signature := listing.signature?
    exceptions := listing.throws.map fun (_, name) => aliases.resolve name
    parameters
    line }

def isStatic (header : Header) : Bool := header.access.isStatic

def isAbstract (header : Header) : Bool := header.access.isAbstract

end Header

namespace ExceptionRange

/-- Resolves the labels of a range in the order of its operands. -/
def ofTryCatch (labels : LabelTable) (aliases : Aliases) (line : Nat) (range : TryCatch) :
    Except CompileError ExceptionRange := do
  let resolve (site : LabelSite) (name : String) : Except CompileError Label :=
    match labels.get? (aliases.resolve name) with
    | some label => .ok label
    | none => .error (.unresolvedLabel site (aliases.resolve name) line)
  let start ← resolve .start range.start
  let stop ← resolve .stop range.stop
  let handler ← resolve .handler range.handler
  return { start, stop, handler, caught := range.caught.map aliases.resolve }

/-- The ranges of a listing, in document order. -/
def ofListing (listing : Listing) (labels : LabelTable) (aliases : Aliases) :
    Except CompileError (List ExceptionRange) :=
  listing.tryCatches.mapM fun (line, range) => ofTryCatch labels aliases line range

end ExceptionRange

namespace Method

/-- A method without code. -/
def ofHeader (header : Header) : Method where
  access := header.access
  name := header.name
  descriptor := header.descriptor
  signature := header.signature
  exceptions := header.exceptions
  instructions := #[]
  ranges := []
  variableTable := none
  maxStack := 0
  maxLocals := 0

/-- The number of label markers in the code. -/
def labelCount (method : Method) : Nat :=
  method.instructions.countP fun
    | .label _ => true
    | _ => false

end Method
end Bytecode
