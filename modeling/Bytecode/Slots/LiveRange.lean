import Bytecode.Method
import Bytecode.Slots.Table
import Bytecode.Verify.Frame

/-!
Live ranges of variables without a declared type, inferred from the frames of a verified method,
and the local variable table made of them.
-/

namespace Bytecode

open Verify (Frame Value)

namespace LiveRange

/-- The value in a slot, where a frame holds one that a variable can have. -/
def valueAt? (slot : Nat) (frame : Option Frame) : Option Value :=
  (frame.bind (·.local? slot)).filter (·.descriptor?.isSome)

/-- Merges values from the left up to the first that is missing or does not merge, and counts
them on from `last`. -/
def extend (merged : Value) (last : Nat) : List (Option Value) → Value × Nat
  | some value :: rest =>
    match merged.merge value with
    | some merged => extend merged (last + 1) rest
    | none => (merged, last)
  | _ => (merged, last)

/-- The first run of frames in which a slot holds values of one type. -/
def infer? (frames : List (Option Frame)) (slot : Nat) : Option LiveRange := do
  let values := frames.map (valueAt? slot)
  let first ← values.findIdx? (·.isSome)
  let value ← values[first]?.join
  let (merged, last) := extend value first (values.drop (first + 1))
  let descriptor ← merged.descriptor?
  return { first, last, descriptor }

end LiveRange

/-- A label marker and its index. -/
structure PlacedLabel where
  index : Nat
  label : Label
  deriving DecidableEq, Repr

def placedLabels (instructions : List Instruction) : List PlacedLabel :=
  instructions.zipIdx.filterMap fun (instruction, index) =>
    match instruction with
    | .label label => some ⟨index, label⟩
    | _ => none

namespace LiveRange

/-- The labels that enclose a range most closely: the last one at or before its start, or else the
first of all; and the first one after both, or else the first after that start. A range that
starts at the last label has no end. -/
def bounds? (labels : List PlacedLabel) (range : LiveRange) : Option (Label × Label) := do
  let leading ← labels.head?
  let start := (labels.reverse.find? (·.index ≤ range.first)).getD leading
  let after := labels.filter (start.index < ·.index)
  let stop ← (after.find? (range.last < ·.index)).or after.head?
  return (start.label, stop.label)

end LiveRange

namespace SlotTable

/-- Infers the live range of every variable without a descriptor. -/
def inferRanges (table : SlotTable) (frames : List (Option Frame)) : SlotTable :=
  let untyped := table.entries.toList.filter (·.descriptor.isNone)
  { table with
    live := untyped.foldl (fun live entry =>
      match LiveRange.infer? frames entry.index.toNat with
      | some range => live.insert entry.name range
      | none => live) {} }

/-- The entry of a variable: over all labels if its type is declared, otherwise over its live
range. -/
def localVariable? (table : SlotTable) (labels : List PlacedLabel) (entry : Variable) :
    Option LocalVariable := do
  let leading ← labels.head?
  let trailing ← labels.getLast?
  match entry.descriptor with
  | some descriptor =>
    return ⟨entry.name, entry.index, descriptor, leading.label, trailing.label⟩
  | none =>
    let range ← table.live[entry.name]?
    let (start, stop) ← range.bounds? labels
    return ⟨entry.name, entry.index, range.descriptor, start, stop⟩

/-- The local variable table of the code, by slot and then by name. -/
def localVariables (table : SlotTable) (instructions : List Instruction) : List LocalVariable :=
  let labels := placedLabels instructions
  (table.entries.toList.filterMap (table.localVariable? labels)).mergeSort fun left right =>
    left.index < right.index || (left.index == right.index && !(right.name < left.name))

end SlotTable
end Bytecode
