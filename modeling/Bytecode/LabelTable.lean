import Bytecode.Instruction
import Bytecode.Listing

/-!
Label names and their markers: one marker per distinct name, numbered in the order of first
appearance.
-/

namespace Bytecode

/-- A label name and the line of its first declaration. -/
structure DeclaredLabel where
  name : String
  line : Nat
  deriving DecidableEq, Repr

/-- Declared labels, by the number of their marker. -/
structure LabelTable where
  entries : List DeclaredLabel
  deriving DecidableEq, Repr

namespace LabelTable

def empty : LabelTable := ⟨[]⟩

def get? (table : LabelTable) (name : String) : Option Label :=
  (table.entries.findIdx? (·.name == name)).map Label.mk

/-- A name that is seen for the first time takes the next number. -/
def register (table : LabelTable) (name : String) (line : Nat) : LabelTable :=
  match table.get? name with
  | some _ => table
  | none => ⟨table.entries ++ [⟨name, line⟩]⟩

def ofListing (listing : Listing) : LabelTable :=
  listing.labels.foldl (fun table (line, name) => table.register name line) empty

def name? (table : LabelTable) (label : Label) : Option String :=
  table.entries[label.id]?.map (·.name)

def line? (table : LabelTable) (label : Label) : Option Nat :=
  table.entries[label.id]?.map (·.line)

def size (table : LabelTable) : Nat := table.entries.length

/-- Markers in the order of their numbers. -/
def toList (table : LabelTable) : List (Label × DeclaredLabel) :=
  table.entries.zipIdx.map fun (entry, id) => (⟨id⟩, entry)

end LabelTable
end Bytecode
