import Bytecode.Access
import Bytecode.Constant
import Bytecode.Opcode

/-!
The statements of one method as they are written: flat, in document order, each on its line.
Labels, variables and types are still names, which an alias may stand for.
-/

namespace Bytecode

/-- An instruction with symbolic operands. -/
inductive Operation where
  | simple (opcode : Opcode)
  | int (opcode : Opcode) (operand : Int32)
  /-- A local by name or by slot number. -/
  | variable (opcode : Opcode) (name : String)
  | increment (name : String) (amount : Int32)
  | jump (opcode : Opcode) (target : String)
  | constant (value : Constant)
  | type (opcode : Opcode) (name : String)
  | field (opcode : Opcode) (owner name descriptor : String)
  | method (opcode : Opcode) (owner name descriptor : String) (onInterface : Bool)
  | callSite (name descriptor : String) (bootstrap : Handle) (arguments : List Constant)
  | tableSwitch (least most : Int32) (fallback : String) (targets : List String)
  | lookupSwitch (fallback : String) (keys : List Int32) (targets : List String)
  | newArrays (descriptor : String) (dimensions : UInt8)
  | line (start : String) (number : UInt32)
  deriving DecidableEq, Repr

structure Parameter where
  name : String
  descriptor : String
  deriving DecidableEq, Repr

structure Definition where
  modifiers : List Modifier
  name : String
  parameters : List Parameter
  result : String
  deriving DecidableEq, Repr

/-- A range of code between two labels, and where control goes when it throws. -/
structure TryCatch where
  start : String
  stop : String
  handler : String
  /-- The caught class; without one everything is caught. -/
  caught : Option String
  deriving DecidableEq, Repr

inductive Statement where
  | definition (header : Definition)
  | label (name : String)
  | operation (body : Operation)
  | tryCatch (range : TryCatch)
  | alias (name value : String)
  | throws (name : String)
  | signature (text : String)
  deriving DecidableEq, Repr

structure Entry where
  line : Nat
  statement : Statement
  deriving DecidableEq, Repr

structure Listing where
  entries : List Entry
  deriving DecidableEq, Repr

/-- What a reader of the written form found wrong. -/
structure Problem where
  line : Nat
  message : String
  deriving DecidableEq, Repr

def Problem.text (problem : Problem) : String := s!"line {problem.line}: {problem.message}"

/-- A listing with every problem met while it was read. -/
structure ReadListing where
  listing : Listing
  problems : List Problem

def ReadListing.succeeded (result : ReadListing) : Bool := result.problems.isEmpty

namespace Operation

def opcode? : Operation → Option Opcode
  | .simple opcode | .int opcode _ | .variable opcode _ | .jump opcode _ => some opcode
  | .type opcode _ | .field opcode .. | .method opcode .. => some opcode
  | .increment .. => some .iinc
  | .constant _ => some .ldc
  | .callSite .. => some .invokeDynamic
  | .tableSwitch .. => some .tableSwitch
  | .lookupSwitch .. => some .lookupSwitch
  | .newArrays .. => some .multiNewArray
  | .line .. => none

end Operation

namespace Definition

def access (definition : Definition) : AccessFlags := .ofModifiers definition.modifiers

/-- The method descriptor as written, without regard to aliases. -/
def descriptor (definition : Definition) : String :=
  "(" ++ String.join (definition.parameters.map (·.descriptor)) ++ ")" ++ definition.result

end Definition

namespace Statement

def definition? : Statement → Option Definition
  | .definition header => some header
  | _ => none

def label? : Statement → Option String
  | .label name => some name
  | _ => none

def operation? : Statement → Option Operation
  | .operation body => some body
  | _ => none

def tryCatch? : Statement → Option TryCatch
  | .tryCatch range => some range
  | _ => none

def alias? : Statement → Option (String × String)
  | .alias name value => some (name, value)
  | _ => none

def throws? : Statement → Option String
  | .throws name => some name
  | _ => none

def signature? : Statement → Option String
  | .signature text => some text
  | _ => none

end Statement

namespace Listing

/-- The chosen statements with their lines, in document order. -/
def select {α : Type} (listing : Listing) (choose : Statement → Option α) : List (Nat × α) :=
  listing.entries.filterMap fun entry => (choose entry.statement).map fun chosen =>
    (entry.line, chosen)

def definitionIndex? (listing : Listing) : Option Nat :=
  listing.entries.findIdx? (·.statement.definition?.isSome)

/-- The first definition. -/
def definition? (listing : Listing) : Option (Nat × Definition) :=
  (listing.select Statement.definition?).head?

def signature? (listing : Listing) : Option String :=
  ((listing.select Statement.signature?).map (·.2)).head?

def throws (listing : Listing) : List (Nat × String) := listing.select Statement.throws?

def labels (listing : Listing) : List (Nat × String) := listing.select Statement.label?

def tryCatches (listing : Listing) : List (Nat × TryCatch) :=
  listing.select Statement.tryCatch?

def aliases (listing : Listing) : List (Nat × String × String) :=
  listing.select Statement.alias?

def operations (listing : Listing) : List (Nat × Operation) :=
  listing.select Statement.operation?

end Listing
end Bytecode
