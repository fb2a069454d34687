import Std.Data.HashMap
import Bytecode.Code.Resolve

/-!
The code of a listing: one instruction for each label and each operation, in document order, with
the statement that each came from.
-/

namespace Bytecode

/-- The statement that an instruction came from: its index in the listing, and its line. Indices are taken to fit 32
bits: a listing has fewer than 2^32 statements. -/
structure Origin where
  entry : Nat
  line : Nat
  deriving DecidableEq, Repr

/-- Origins by the index of the instruction. -/
structure Origins where
  entries : Array Origin
  deriving DecidableEq, Repr

namespace Origins

def size (origins : Origins) : Nat := origins.entries.size

/-- The line that an instruction came from. -/
def lineOf? (origins : Origins) (index : Nat) : Option Nat :=
  origins.entries[index]?.map (·.line)

/-- The statement that an instruction came from. -/
def entryOf? (origins : Origins) (index : Nat) : Option Nat :=
  origins.entries[index]?.map (·.entry)

/-- Instructions by the statements they came from. -/
def byEntry (origins : Origins) : Std.HashMap Nat Nat :=
  origins.entries.zipIdx.foldl (fun table numbered => table.insert numbered.1.entry numbered.2) {}

/-- Instructions by the lines they came from; the first of a line stays. -/
def byLine (origins : Origins) : Std.HashMap Nat Nat :=
  origins.entries.zipIdx.foldl (fun table numbered => table.insertIfNew numbered.1.line numbered.2) {}

/-- The instruction that came from a statement. -/
def instructionOf? (origins : Origins) (entry : Nat) : Option Nat := origins.byEntry[entry]?

/-- The first instruction that came from a line. -/
def instructionAt? (origins : Origins) (line : Nat) : Option Nat := origins.byLine[line]?

end Origins

/-- Tables that names are resolved against. -/
structure Tables where
  labels : LabelTable
  slots : SlotTable
  aliases : Aliases

def Tables.scope (tables : Tables) (line : Nat) : Scope :=
  ⟨tables.labels, tables.slots, tables.aliases, line⟩

/-- Code emitted so far, and where labels were placed. -/
structure Emission where
  instructions : Array Instruction
  origins : Origins
  /-- Placed labels with the lines of their statements. -/
  placed : List (Label × Nat)
  deriving Repr

namespace Emission

def empty : Emission := ⟨#[], ⟨#[]⟩, []⟩

def push (emission : Emission) (index line : Nat) (instruction : Instruction) : Emission :=
  { emission with
    instructions := emission.instructions.push instruction
    origins := ⟨emission.origins.entries.push ⟨index, line⟩⟩ }

/-- Places a label under the name of its statement, which no alias stands for, and no second
time. -/
def place (tables : Tables) (emission : Emission) (index line : Nat) (name : String) :
    Except CompileError Emission :=
  match tables.labels.get? name with
  | none => .error (.unresolvedLabel .operand name line)
  | some label =>
    match emission.placed.lookup label with
    | some firstLine => .error (.duplicateLabel name line firstLine)
    | none =>
      .ok { emission.push index line (.label label) with
        placed := (label, line) :: emission.placed }

/-- Emits a statement; all but labels and operations emit nothing. -/
def step (tables : Tables) (emission : Emission) (entry : Entry) (index : Nat) :
    Except CompileError Emission :=
  match entry.statement with
  | .label name => emission.place tables index entry.line name
  | .operation operation => do
    let instruction ← operation.compile (tables.scope entry.line)
    return emission.push index entry.line instruction
  | _ => .ok emission

def ofListing (tables : Tables) (listing : Listing) : Except CompileError Emission :=
  listing.entries.zipIdx.foldlM
    (fun emission (entry, index) => emission.step tables entry index) empty

end Emission
end Bytecode
