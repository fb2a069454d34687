import Bytecode.Code.Emission
import Bytecode.Config
import Bytecode.Slots.LiveRange
import Bytecode.Verify.Analysis

/-!
The assembler: from a listing to a verified method, with the tables that trace it back to the
listing.
-/

namespace Bytecode

/-- The settings for the methods of one type. -/
structure Assembler where
  declaringType : String
  config : Config
  baseline : List BaselineVariable

/-- How a method's code came to be. -/
structure Compilation where
  tables : Tables
  origins : Origins

structure Assembly where
  method : Method
  /-- The frame before each instruction, if the method was verified. -/
  frames : Option (Array (Option Verify.Frame))
  /-- Missing if the method is abstract. -/
  compilation : Option Compilation

namespace Assembly

/-- The line that an instruction came from. -/
def lineOf? (assembly : Assembly) (index : Nat) : Option Nat :=
  assembly.compilation.bind (·.origins.lineOf? index)

/-- The first instruction that came from a line. -/
def instructionAt? (assembly : Assembly) (line : Nat) : Option Nat :=
  assembly.compilation.bind (·.origins.instructionAt? line)

end Assembly

namespace Assembler

/-- A verifier visits at least one instruction, whatever its settings say. -/
def verifier (assembler : Assembler) : Verify.Verifier where
  declaringType := assembler.declaringType
  maxStack := assembler.config.maxStack
  maxVisits := max assembler.config.maxVisits 1

/-- The slots of a method before those that its code uses. -/
def initialSlots (assembler : Assembler) (header : Header) : SlotTable :=
  ((SlotTable.ofMethod header.isStatic assembler.declaringType).addBaseline
    assembler.baseline).addParameters header.parameters

/-- A broken rule as an error at the line and instruction it was found at. -/
def rejected (method : Method) (origins : Origins) (rejection : Verify.Rejection) : CompileError :=
  .verification rejection.index (origins.lineOf? rejection.index)
    method.instructions[rejection.index]? rejection.violation

/-- Verifies a compiled method, and infers the ranges of its untyped variables from the frames. -/
def verify (assembler : Assembler) (method : Method) (tables : Tables) (origins : Origins) :
    Except CompileError (Array (Option Verify.Frame) × Tables) := do
  let frames ← (assembler.verifier.analyze method).mapError (rejected method origins)
  return (frames, { tables with slots := tables.slots.inferRanges frames.toList })

/-- Compiles the code of a method with a header. -/
def compileCode (assembler : Assembler) (listing : Listing) (aliases : Aliases) (header : Header) :
    Except CompileError Assembly := do
  let labels := LabelTable.ofListing listing
  let ranges ← ExceptionRange.ofListing listing labels aliases
  let (slots, allocated) :=
    (assembler.initialSlots header).allocate (SlotUse.ofListing listing aliases)
  allocated
  let tables : Tables := ⟨labels, slots, aliases⟩
  let emission ← Emission.ofListing tables listing
  let method :=
    { Method.ofHeader header with
      instructions := emission.instructions
      ranges
      maxStack := assembler.config.maxStack
      maxLocals := slots.high }
  let (frames, tables) ←
    if assembler.config.verify then do
      let (frames, tables) ← assembler.verify method tables emission.origins
      pure (some frames, tables)
    else pure (none, tables)
  let variableTable :=
    if assembler.config.variableTable then
      some (tables.slots.localVariables method.instructions.toList)
    else none
  return {
    method := { method with variableTable }
    frames
    compilation := some ⟨tables, emission.origins⟩ }

/-- Assembles a listing that was read without problems. -/
def compile (assembler : Assembler) (source : ReadListing) : Except CompileError Assembly := do
  match source.problems with
  | first :: rest => throw (.problems first rest)
  | [] => pure ()
  let aliases := Aliases.ofListing source.listing
  let header ← Header.ofListing source.listing aliases
  if header.isAbstract then
    return { method := Method.ofHeader header, frames := none, compilation := none }
  else assembler.compileCode source.listing aliases header

end Assembler

/-- The last method that was assembled without an error. -/
structure Session where
  held : Option Assembly

namespace Session

def empty : Session := ⟨none⟩

/-- An error leaves what is held. -/
def compile (session : Session) (assembler : Assembler) (source : ReadListing) :
    Session × Except CompileError Assembly :=
  match assembler.compile source with
  | .ok assembly => (⟨some assembly⟩, .ok assembly)
  | .error error => (session, .error error)

def method? (session : Session) : Option Method := session.held.map (·.method)

def frames? (session : Session) : Option (Array (Option Verify.Frame)) :=
  session.held.bind (·.frames)

def lineOf? (session : Session) (index : Nat) : Option Nat :=
  session.held.bind (·.lineOf? index)

def instructionAt? (session : Session) (line : Nat) : Option Nat :=
  session.held.bind (·.instructionAt? line)

end Session
end Bytecode
