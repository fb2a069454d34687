import Bytecode.Proofs.FixedPoint

/-! What changes when a line marker is inserted into a method: the instructions from its position
on move by one, and with them labels, ranges and the targets of jumps. -/

namespace Bytecode
open List

/-- A line marker and the index at which it is inserted. -/
structure LineMarker where
  position : Nat
  number : UInt32
  start : Label

namespace LineMarker

def instruction (marker : LineMarker) : Instruction := .line marker.number marker.start

def insert (marker : LineMarker) (instructions : Array Instruction) : Array Instruction :=
  (instructions.toList.take marker.position ++
    marker.instruction :: instructions.toList.drop marker.position).toArray

/-- Where the instruction at an index stands once the marker is inserted. -/
def displaced (marker : LineMarker) (index : Nat) : Nat :=
  if index < marker.position then index else index + 1

/-- The index that an instruction had before; the marker itself counts as what follows it. -/
def origin (marker : LineMarker) (index : Nat) : Nat :=
  if index ≤ marker.position then index else index - 1

variable {marker : LineMarker}

theorem displaced_lt {first second : Nat} :
    marker.displaced first < marker.displaced second ↔ first < second := by
  unfold displaced
  split <;> split <;> omega

theorem displaced_injective (marker : LineMarker) : Function.Injective marker.displaced := by
  intro first second same
  unfold displaced at same
  split at same <;> split at same <;> omega

theorem origin_displaced (index : Nat) : marker.origin (marker.displaced index) = index := by
  unfold origin displaced
  split <;> split <;> omega

theorem origin_displaced_succ (marker : LineMarker) (index : Nat) :
    marker.origin (marker.displaced index + 1) = index + 1 := by
  unfold origin displaced
  split <;> split <;> omega

theorem origin_position : marker.origin marker.position = marker.position := by
  simp [origin]

theorem origin_position_succ : marker.origin (marker.position + 1) = marker.position := by
  simp [origin]

/-- Every index is that of the marker or of a displaced instruction. -/
theorem eq_displaced (marker : LineMarker) (index : Nat) :
    index = marker.position ∨ index = marker.displaced (marker.origin index) := by
  unfold displaced origin
  split <;> split <;> omega

theorem lt_of_displaced_lt (marker : LineMarker) {index size : Nat} (before : marker.displaced index < size + 1)
    (inside : marker.position ≤ size) : index < size := by
  unfold displaced at before
  split at before <;> omega

theorem lt_of_origin_lt (marker : LineMarker) {index size : Nat} (before : marker.origin index < size) :
    index < size + 1 := by
  unfold origin at before
  split at before <;> omega

variable {instructions : Array Instruction} (inside : marker.position ≤ instructions.size)

include inside in
private theorem length_before :
    (instructions.toList.take marker.position).length = marker.position := by
  simpa only [List.length_take, Array.length_toList] using Nat.min_eq_left inside

include inside in
theorem size_insert : (marker.insert instructions).size = instructions.size + 1 := by
  simp only [insert, List.size_toArray, List.length_append, List.length_take, List.length_cons,
    List.length_drop, Array.length_toList]
  omega

include inside in
/-- The numbered instructions are the old ones, shifted, with the marker among them. -/
theorem zipIdx_insert : ∃ before after, instructions.toList.zipIdx = before ++ after ∧
    (marker.insert instructions).toList.zipIdx = before.map (Prod.map id marker.displaced) ++
      (marker.instruction, marker.position) :: after.map (Prod.map id marker.displaced) := by
  have length := length_before inside
  refine ⟨(instructions.toList.take marker.position).zipIdx,
    (instructions.toList.drop marker.position).zipIdx marker.position, ?_, ?_⟩
  · have whole := List.take_append_drop marker.position instructions.toList
    rw [← congrArg List.zipIdx whole, List.zipIdx_append, length, Nat.zero_add]
  · have first : (instructions.toList.take marker.position).zipIdx.map (Prod.map id marker.displaced) =
        (instructions.toList.take marker.position).zipIdx := by
      apply (List.map_congr_left ?_).trans (List.map_id _)
      intro entry listed
      have early := List.snd_lt_of_mem_zipIdx listed
      rw [length, Nat.add_zero] at early
      simp [Prod.map, displaced, early]
    have second : ((instructions.toList.drop marker.position).zipIdx marker.position).map
        (Prod.map id marker.displaced) =
          (instructions.toList.drop marker.position).zipIdx (marker.position + 1) := by
      rw [List.zipIdx_succ]
      apply List.map_congr_left
      intro entry listed
      have late := List.le_snd_of_mem_zipIdx listed
      simp [Prod.map, displaced, Nat.not_lt.mpr late]
    rw [first, second, insert, List.zipIdx_append, length]
    simp

include inside in
theorem getElem?_insert_displaced (index : Nat) :
    (marker.insert instructions)[marker.displaced index]? = instructions[index]? := by
  simp only [insert, ← Array.getElem?_toList, displaced]
  split
  next early =>
    have placed : index < (instructions.toList.take marker.position).length := by simp; omega
    rw [List.getElem?_append_left placed, List.getElem?_take_of_lt early]
  next late =>
    have length := length_before inside
    rw [List.getElem?_append_right (by omega), length,
      show index + 1 - marker.position = index - marker.position + 1 by omega, List.getElem?_cons_succ,
      List.getElem?_drop, Nat.add_sub_cancel' (Nat.le_of_not_lt late)]

include inside in
theorem getElem?_insert_position :
    (marker.insert instructions)[marker.position]? = some marker.instruction := by
  have length := length_before inside
  rw [insert, List.getElem?_toArray, List.getElem?_append_right (by omega), length, Nat.sub_self]
  rfl

end LineMarker

def Method.withLine (method : Method) (marker : LineMarker) : Method :=
  { method with instructions := marker.insert method.instructions }

namespace Verify

def HandlerRange.withLine (handler : HandlerRange) (marker : LineMarker) : HandlerRange where
  start := marker.displaced handler.start
  stop := marker.displaced handler.stop
  entry := marker.displaced handler.entry
  caught := handler.caught

theorem HandlerRange.covers_withLine {handler : HandlerRange} {marker : LineMarker} {index : Nat} :
    (handler.withLine marker).Covers (marker.displaced index) ↔ handler.Covers index := by
  unfold Covers HandlerRange.withLine
  rw [← Nat.not_lt, LineMarker.displaced_lt, LineMarker.displaced_lt, Nat.not_lt]

def Flow.withLine (flow : Flow) (marker : LineMarker) : Flow where
  instructions := marker.insert flow.instructions
  handlers := flow.handlers.map (·.withLine marker)

def Setting.withLine (setting : Setting) (marker : LineMarker) : Setting :=
  { setting with flow := setting.flow.withLine marker }

section
variable {marker : LineMarker} {instructions : Array Instruction}
  (inside : marker.position ≤ instructions.size)

include inside in
theorem position?_insert (label : Label) : position? (marker.insert instructions) label =
    (position? instructions label).map marker.displaced := by
  obtain ⟨before, after, old, new⟩ := LineMarker.zipIdx_insert inside
  have marks (entries : List (Instruction × Nat)) :
      (entries.map (Prod.map id marker.displaced)).filter (fun entry => entry.1 == .label label) =
        (entries.filter fun entry => entry.1 == .label label).map (Prod.map id marker.displaced) := by
    rw [List.filter_map]
    rfl
  have apart : (marker.instruction == Instruction.label label) = false := rfl
  simp only [position?, old, new, List.filter_append, List.filter_cons, apart, marks, Bool.false_eq_true,
    if_false, ← List.map_append, List.getLast?_map, Option.map_map]
  rfl

theorem unknownLabel?_eq_none : unknownLabel? instructions = none ↔
    ∀ instruction ∈ instructions, ∀ label ∈ instruction.references,
      (position? instructions label).isSome = true := by
  simp only [unknownLabel?, List.findSome?_eq_none_iff, Option.map_eq_none_iff, List.find?_eq_none]
  constructor
  · intro known instruction listed label refers
    obtain ⟨index, stands⟩ := List.mem_iff_getElem?.mp (Array.mem_toList_iff.mpr listed)
    have placed := known (instruction, index) (List.mem_zipIdx_iff_getElem?.mpr stands) label refers
    simpa [Option.isSome_iff_ne_none] using placed
  · intro placed entry listed label refers
    have stands := List.mem_of_getElem? (List.mem_zipIdx_iff_getElem?.mp listed)
    have known := placed entry.1 (Array.mem_toList_iff.mp stands) label refers
    simpa [Option.isSome_iff_ne_none] using known

theorem LineMarker.mem_insert (instruction : Instruction) :
    instruction ∈ marker.insert instructions ↔
      instruction = marker.instruction ∨ instruction ∈ instructions := by
  have split : instruction ∈ instructions ↔
      instruction ∈ instructions.toList.take marker.position ∨
        instruction ∈ instructions.toList.drop marker.position := by
    rw [← List.mem_append, List.take_append_drop, Array.mem_toList_iff]
  rw [split]
  simp only [LineMarker.insert, List.mem_toArray, List.mem_append, List.mem_cons]
  tauto

include inside in
theorem unknownLabel?_insert (placed : (position? instructions marker.start).isSome = true) :
    unknownLabel? (marker.insert instructions) = none ↔ unknownLabel? instructions = none := by
  simp only [unknownLabel?_eq_none, LineMarker.mem_insert, position?_insert inside, Option.isSome_map]
  constructor
  · intro known instruction old
    exact known instruction (.inr old)
  · intro known instruction either
    rcases either with rfl | old
    · simpa [LineMarker.instruction, Instruction.references] using placed
    · exact known instruction old

theorem HandlerRange.ofRange_ok {number : Nat} {range : ExceptionRange} {handler : HandlerRange} :
    HandlerRange.ofRange instructions number range = .ok handler ↔
      position? instructions range.start = some handler.start ∧
        position? instructions range.stop = some handler.stop ∧
          position? instructions range.handler = some handler.entry ∧
            handler.start < handler.stop ∧ handler.caught = range.caught.getD throwableName := by
  obtain ⟨start, stop, entry, caught⟩ := handler
  simp only [HandlerRange.ofRange, except_bind_ok]
  constructor
  · intro resolved
    obtain ⟨first, begins, last, ends, index, enters, resolved⟩ := resolved
    split at begins <;> cases begins
    next placed_start =>
      split at ends <;> cases ends
      next placed_stop =>
        split at enters <;> cases enters
        next placed_entry =>
          split at resolved
          next => cases resolved
          next covers =>
            cases resolved
            exact ⟨placed_start, placed_stop, placed_entry, Nat.lt_of_not_le covers, rfl⟩
  · intro resolved
    obtain ⟨begins, ends, enters, covers, rfl⟩ := resolved
    refine ⟨start, by simp only [begins], stop, by simp only [ends], entry, by simp only [enters], ?_⟩
    rw [if_neg (Nat.not_le_of_lt covers)]
    rfl

include inside in
theorem HandlerRange.ofRange_insert {number : Nat} {range : ExceptionRange} {moved : HandlerRange} :
    HandlerRange.ofRange (marker.insert instructions) number range = .ok moved ↔
      ∃ handler, HandlerRange.ofRange instructions number range = .ok handler ∧
        handler.withLine marker = moved := by
  simp only [HandlerRange.ofRange_ok, position?_insert inside, Option.map_eq_some_iff]
  constructor
  · intro resolved
    obtain ⟨⟨start, first, begins⟩, ⟨stop, last, ends⟩, ⟨entry, index, enters⟩, covers, caught⟩ := resolved
    rw [← begins, ← ends, LineMarker.displaced_lt] at covers
    refine ⟨⟨start, stop, entry, moved.caught⟩, ⟨first, last, index, covers, caught⟩, ?_⟩
    simp [HandlerRange.withLine, begins, ends, enters]
  · intro resolved
    obtain ⟨handler, ⟨first, last, index, covers, caught⟩, rfl⟩ := resolved
    exact ⟨⟨_, first, rfl⟩, ⟨_, last, rfl⟩, ⟨_, index, rfl⟩, LineMarker.displaced_lt.mpr covers, caught⟩

end

namespace Flow
variable {marker : LineMarker} {method : Method}

theorem ofMethod_iff {flow : Flow} : Flow.ofMethod method = .ok flow ↔
    unknownLabel? method.instructions = none ∧ flow.instructions = method.instructions ∧
      Forall₂ (fun entry handler =>
        HandlerRange.ofRange method.instructions entry.2 entry.1 = .ok handler)
        method.ranges.zipIdx flow.handlers := by
  obtain ⟨instructions, handlers⟩ := flow
  unfold Flow.ofMethod
  simp only
  split
  next rejection unknown =>
    simp only [unknown]
    constructor
    · intro built
      cases built
    · intro known
      cases known.1
  next known =>
    simp only [known, true_and, except_bind_ok, mapM_ok_iff]
    constructor
    · intro built
      obtain ⟨found, resolved, same⟩ := built
      cases same
      exact ⟨rfl, resolved⟩
    · intro resolved
      obtain ⟨rfl, resolved⟩ := resolved
      exact ⟨handlers, resolved, rfl⟩

theorem ofMethod_withLine (inside : marker.position ≤ method.instructions.size)
    (placed : (position? method.instructions marker.start).isSome = true) {moved : Flow} :
    Flow.ofMethod (method.withLine marker) = .ok moved ↔
      ∃ flow, Flow.ofMethod method = .ok flow ∧ flow.withLine marker = moved := by
  simp only [ofMethod_iff, Method.withLine, unknownLabel?_insert inside placed,
    HandlerRange.ofRange_insert inside, forall₂_exists]
  constructor
  · intro built
    obtain ⟨known, same, handlers, resolved, shifted⟩ := built
    refine ⟨⟨method.instructions, handlers⟩, ⟨known, rfl, resolved⟩, ?_⟩
    simp only [Flow.withLine, shifted, ← same]
  · intro built
    obtain ⟨flow, ⟨known, same, resolved⟩, rfl⟩ := built
    exact ⟨known, by simp only [Flow.withLine, same], flow.handlers, resolved, rfl⟩

variable {flow : Flow} (inside : marker.position ≤ flow.size)

include inside in
theorem size_withLine : (flow.withLine marker).size = flow.size + 1 :=
  LineMarker.size_insert inside

include inside in
theorem origin_target (label : Label) :
    marker.origin ((flow.withLine marker).target label) = flow.target label := by
  unfold target
  rw [size_withLine inside]
  simp only [Flow.withLine]
  rw [position?_insert inside]
  cases position? flow.instructions label with
  | none =>
    simp only [Option.map_none, Option.getD_none, LineMarker.origin]
    split <;> omega
  | some index => exact LineMarker.origin_displaced index

private theorem filterMap_shifted {pick : Instruction × Nat → Option Nat}
    (step : ∀ instruction index,
      (pick (instruction, marker.displaced index)).map marker.origin = pick (instruction, index))
    (entries : List (Instruction × Nat)) :
    ((entries.map (Prod.map id marker.displaced)).filterMap pick).map marker.origin =
      entries.filterMap pick := by
  rw [List.filterMap_map, List.map_filterMap]
  exact List.filterMap_congr fun entry _ => step entry.1 entry.2

include inside in
theorem origin_subroutineReturns :
    (flow.withLine marker).subroutineReturns.map marker.origin = flow.subroutineReturns := by
  obtain ⟨before, after, old, new⟩ := LineMarker.zipIdx_insert inside
  unfold subroutineReturns
  simp only [Flow.withLine]
  rw [old, new, List.filterMap_append, List.filterMap_append, List.map_append, List.filterMap_cons]
  simp only [LineMarker.instruction]
  rw [filterMap_shifted, filterMap_shifted]
  all_goals
    intro instruction index
    simp only
    split
    · rw [Option.map_some, LineMarker.origin_displaced_succ]
    · rfl

include inside in
/-- Control goes where it went before; to what follows the marker it may go through it. -/
theorem origin_successors (index : Nat) (instruction : Instruction) :
    ((flow.withLine marker).successors (marker.displaced index) instruction).map marker.origin =
      flow.successors index instruction := by
  have targets (labels : List Label) : (labels.map (flow.withLine marker).target).map marker.origin =
      labels.map flow.target := by
    rw [List.map_map]
    exact List.map_congr_left fun label _ => origin_target inside label
  have next := marker.origin_displaced_succ index
  unfold successors
  split
  · split
    · rw [List.map_cons, origin_target inside, List.map_singleton, next]
    · rw [List.map_singleton, origin_target inside]
  · exact targets _
  · exact targets _
  · exact origin_subroutineReturns inside
  · split
    · rfl
    · rw [List.map_singleton, next]
  · rw [List.map_singleton, next]

end Flow

namespace Verifier
variable {verifier : Verifier} {marker : LineMarker} {method : Method}

/-- Marked or not, a method gives the analysis the same start, up to the shift. -/
theorem setting_withLine (inside : marker.position ≤ method.instructions.size)
    (placed : (position? method.instructions marker.start).isSome = true) {moved : Setting} :
    verifier.setting (method.withLine marker) = .ok moved ↔
      ∃ setting, verifier.setting method = .ok setting ∧ setting.withLine marker = moved := by
  have nonempty : method.instructions.isEmpty = false := by
    obtain ⟨index, found⟩ := Option.isSome_iff_exists.mp placed
    have filled := position?_inside found
    simpa using Array.ne_empty_of_size_pos (by omega)
  have longer : (method.withLine marker).instructions.isEmpty = false := by
    have size : (method.withLine marker).instructions.size = method.instructions.size + 1 :=
      LineMarker.size_insert inside
    simpa using Array.ne_empty_of_size_pos (by omega)
  simp only [setting_iff, nonempty, longer, true_and, Flow.ofMethod_withLine inside placed]
  constructor
  · intro prepared
    obtain ⟨type, parsed, ⟨flow, built, shifted⟩, around, first⟩ := prepared
    refine ⟨⟨flow, moved.around, moved.initial⟩, ⟨type, parsed, built, around, first⟩, ?_⟩
    simp only [Setting.withLine, shifted]
  · intro prepared
    obtain ⟨setting, ⟨type, parsed, built, around, first⟩, rfl⟩ := prepared
    exact ⟨type, parsed, ⟨setting.flow, built, rfl⟩, around, first⟩

end Verifier
end Verify
end Bytecode
