import Bytecode.Proofs.FailureSites

/-! Assembled code is well formed: its records hold what their opcodes take, and all labels that they and
the ranges refer to are placed. A verification refuses it for what it does, never for how it is written
down. -/

namespace Bytecode
open Verify

theorem Scope.label_ok {scope : Scope} {name : String} {label : Label} :
    scope.label name = .ok label ↔ scope.labels.get? (scope.resolve name) = some label := by
  unfold Scope.label
  split
  next found => simp [found]
  next missing => simp [missing]

namespace Operation
variable {scope : Scope} {operation : Operation} {instruction : Instruction}

/-- A record refers to labels of the table that it is compiled with. -/
theorem compile_references (compiled : operation.compile scope = .ok instruction) {label : Label}
    (refers : label ∈ instruction.references) : ∃ name, scope.labels.get? name = some label := by
  have resolved {name : String} {label : Label} (found : scope.label name = .ok label) :
      ∃ name, scope.labels.get? name = some label := ⟨_, Scope.label_ok.mp found⟩
  have targeted {names : List String} {labels : List Label} (found : names.mapM scope.label = .ok labels)
      (listed : label ∈ labels) : ∃ name, scope.labels.get? name = some label := by
    obtain ⟨name, _, found⟩ := forall₂_mem_right (mapM_ok_iff.mp found) listed
    exact resolved found
  obtain ⟨_, compiles⟩ := compile_ok.mp compiled
  cases compiles with
  | jump found | line found =>
    obtain rfl := List.mem_singleton.mp refers
    exact resolved found
  | tableSwitch _ _ otherwise found | lookupSwitch _ _ otherwise found =>
    rcases List.mem_cons.mp refers with rfl | listed
    · exact resolved otherwise
    · exact targeted found listed
  | _ => cases refers

end Operation

/-- A record that is not refused for itself, whatever the frame it finds. -/
def Instruction.WellFormed (instruction : Instruction) : Prop :=
  ∀ violation, ¬ Violation.OfRecord instruction violation

theorem Scope.fieldDescriptor_ok {scope : Scope} {descriptor form : String}
    (described : scope.fieldDescriptor descriptor = .ok form) : ∃ type, FieldType.parse form = .ok type := by
  obtain ⟨type, parsed, same⟩ := except_bind_ok.mp described
  cases same
  exact ⟨type, mapError_ok.mp parsed⟩

theorem Scope.methodDescriptor_ok {scope : Scope} {descriptor form : String}
    (described : scope.methodDescriptor descriptor = .ok form) : ∃ type, MethodType.parse form = .ok type := by
  obtain ⟨type, parsed, same⟩ := except_bind_ok.mp described
  cases same
  exact ⟨type, mapError_ok.mp parsed⟩

/-- What is checked of an operation is all that its record could be refused for. -/
theorem Operation.compile_wellFormed {scope : Scope} {operation : Operation} {instruction : Instruction}
    (compiled : operation.compile scope = .ok instruction) : instruction.WellFormed := by
  obtain ⟨shaped, compiles⟩ := compile_ok.mp compiled
  have takes {opcode : Opcode} {shape : OperandShape} (carries : operation.shape? = some (opcode, shape)) :
      opcode.operands = shape := by
    simp only [Scope.checkShape, carries] at shaped
    split at shaped
    next taken => exact taken
    next => cases shaped
  intro violation refused
  cases refused with
  | opcode carries foreign =>
    apply foreign
    cases compiles with
    | simple | int | «variable» | jump | type | field =>
      cases carries
      exact takes rfl
    | _ => cases carries
  | arrayCode unknown =>
    cases compiles with
    | int taken => simp [Opcode.takesInt, unknown] at taken
  | field malformed =>
    cases compiles with
    | field _ described =>
      obtain ⟨type, parsed⟩ := Scope.fieldDescriptor_ok described
      cases malformed.symm.trans parsed
  | method malformed =>
    cases compiles with
    | method _ described =>
      obtain ⟨type, parsed⟩ := Scope.methodDescriptor_ok described
      cases malformed.symm.trans parsed
  | callSite malformed =>
    cases compiles with
    | callSite described =>
      obtain ⟨type, parsed⟩ := Scope.methodDescriptor_ok described
      cases malformed.symm.trans parsed

/-- A label has a place in the code. -/
def Label.Placed (instructions : Array Instruction) (label : Label) : Prop :=
  ∃ index, position? instructions label = some index

theorem Label.placed_of_mem {instructions : Array Instruction} {label : Label}
    (marked : .label label ∈ instructions) : label.Placed instructions := by
  obtain ⟨index, inside, stands⟩ := Array.mem_iff_getElem.mp marked
  have listed : (Instruction.label label, index) ∈ instructions.toList.zipIdx.filter fun entry =>
      entry.1 == .label label := by
    rw [List.mem_filter, List.mem_zipIdx_iff_getElem?]
    simp [inside, stands]
  obtain ⟨last, found⟩ := List.getLast?_isSome.mpr (List.ne_nil_of_mem listed) |> Option.isSome_iff_exists.mp
  exact ⟨last.2, by simp [position?, found]⟩

namespace Emission
variable {tables : Tables} {listing : Listing} {emission : Emission}

/-- The labels that a listing knows are placed in its code. -/
theorem placed_of_known (emitted : ofListing tables listing = .ok emission)
    (labels : tables.labels = .ofListing listing) {name : String} {label : Label}
    (known : tables.labels.get? name = some label) : label.Placed emission.instructions := by
  have declared : ((LabelTable.ofListing listing).get? name).isSome = true := by
    rw [← labels, known]
    rfl
  obtain ⟨line, listed⟩ := LabelTable.get?_ofListing_isSome.mp declared
  have marked : some label ∈ emission.marks.map some := by
    rw [marks_ofListing emitted, ← known]
    exact List.mem_map_of_mem listed
  have marked : label ∈ emission.marks := by simpa using marked
  obtain ⟨instruction, there, mark⟩ := List.mem_filterMap.mp marked
  cases instruction with
  | label mark =>
    cases mark
    exact Label.placed_of_mem (Array.mem_toList_iff.mp there)
  | _ => cases mark

end Emission

/-- No analysis refuses a method for how it is written down. -/
structure Method.WellFormed (method : Method) : Prop where
  records : ∀ instruction ∈ method.instructions, instruction.WellFormed
  labels : ∀ instruction ∈ method.instructions, ∀ label ∈ instruction.references,
    label.Placed method.instructions
  ranges : ∀ range ∈ method.ranges, ∀ label ∈ [range.start, range.stop, range.handler],
    label.Placed method.instructions
  descriptor : ∃ type, MethodType.parse method.descriptor = .ok type

theorem Assembler.Prepared.wellFormed {assembler : Assembler} {listing : Listing} {header : Header}
    {ranges : List ExceptionRange} {slots : SlotTable} {emission : Emission}
    (prepared : assembler.Prepared listing header ranges slots emission) :
    (assembler.assemble header ranges slots emission).WellFormed := by
  have traced := Emission.traced_ofListing prepared.emitted
  have origin {instruction : Instruction} (listed : instruction ∈ emission.instructions) :
      ∃ origin, Tables.Emits ⟨.ofListing listing, slots, .ofListing listing⟩ listing origin instruction := by
    obtain ⟨index, stands⟩ := Array.mem_iff_getElem?.mp listed
    obtain ⟨origin, _, emits⟩ := traced.emits index instruction stands
    exact ⟨origin, emits⟩
  have placed {name : String} {label : Label} (known : (LabelTable.ofListing listing).get? name = some label) :
      label.Placed emission.instructions := Emission.placed_of_known prepared.emitted rfl known
  obtain ⟨_, _, _, _, described⟩ := Header.ofListing_ok prepared.read
  refine ⟨?_, ?_, ?_, described⟩
  · intro instruction listed
    obtain ⟨_, emits⟩ := origin listed
    cases emits with
    | label =>
      intro violation refused
      cases refused with
      | opcode carries => cases carries
    | operation _ compiled => exact Operation.compile_wellFormed compiled
  · intro instruction listed label refers
    obtain ⟨_, emits⟩ := origin listed
    cases emits with
    | label => cases refers
    | operation _ compiled =>
      obtain ⟨name, known⟩ := Operation.compile_references compiled refers
      exact placed known
  · intro range listed label named
    obtain ⟨⟨line, written⟩, _, found⟩ := forall₂_mem_right (mapM_ok_iff.mp prepared.resolved) listed
    obtain ⟨starts, stops, handles⟩ := ExceptionRange.ofTryCatch_ok found
    simp only [List.mem_cons, List.not_mem_nil, or_false] at named
    rcases named with rfl | rfl | rfl
    · exact placed starts
    · exact placed stops
    · exact placed handles

namespace Verify

/-- What a broken rule is about. -/
inductive Subject where
  | stack
  | locals
  | types
  | flow
  | ranges
  | visits
  /-- How the method is written down: its labels, its descriptors and the operands of its records. -/
  | form
  deriving DecidableEq, Repr

def Violation.subject : Violation → Subject
  | stackUnderflow | stackOverflow _ | stackHeight .. | incompatibleStack .. => .stack
  | localOutOfRange .. | emptyLocal _ => .locals
  | typeMismatch expected _ => if expected.ofRecord then .form else .types
  | returnMismatch .. | wideOperand .. => .types
  | fallsOffEnd => .flow
  | invertedRange _ => .ranges
  | handlerEntered _ cause => cause.subject
  | unknownLabel _ | foreignOpcode _ => .form
  | visitLimit _ => .visits

theorem Violation.OfMerge.subject {violation : Violation} (merged : violation.OfMerge) :
    violation.subject = .stack := by
  cases merged <;> rfl

theorem Rejection.OfAnalysis.subject {method : Method} {rejection : Rejection} (formed : method.WellFormed)
    (rejected : rejection.OfAnalysis method) : rejection.violation.subject ≠ .form := by
  have missing {label : Label} (placed : label.Placed method.instructions) :
      position? method.instructions label ≠ none := by
    obtain ⟨index, found⟩ := placed
    simp [found]
  cases rejected with
  | setting early =>
    cases early with
    | descriptor _ malformed =>
      obtain ⟨type, parsed⟩ := formed.descriptor
      cases malformed.symm.trans parsed
    | operand stands refers unknown =>
      exact absurd unknown (missing (formed.labels _ (Array.mem_of_getElem? stands) _ refers))
    | range _ listed named unknown => exact absurd unknown (missing (formed.ranges _ listed _ named))
    | noCode | inverted | argument => exact Subject.noConfusion
  | visit stands refused =>
    cases refused with
    | breaks broken =>
      rcases broken with frame | record
      · cases frame with
        | operand asked =>
          rw [Violation.subject, asked]
          exact Subject.noConfusion
        | _ => exact Subject.noConfusion
      · exact absurd record (formed.records _ (Array.mem_of_getElem? stands) _)
    | offEnd => exact Subject.noConfusion
    | clash merged =>
      rw [merged.subject]
      exact Subject.noConfusion
    | entered _ merged =>
      rw [Violation.subject, merged.subject]
      exact Subject.noConfusion
  | limit => exact Subject.noConfusion

end Verify

namespace Assembler
variable {assembler : Assembler} {listing : Listing}

/-- Only the verification reports that a rule is broken. -/
theorem Stops.refused {index : Nat} {line : Option Nat} {instruction : Option Instruction} {violation : Violation}
    (stops : assembler.Stops listing (.verification index line instruction violation)) :
    ∃ header ranges slots emission, assembler.Prepared listing header ranges slots emission ∧
      assembler.verifier.analyze (assembler.assemble header ranges slots emission) = .error ⟨index, violation⟩ := by
  have early : ¬ CompileError.OfStatement (.verification index line instruction violation) := by
    intro about
    cases about with
    | operand about => cases about
  generalize same : CompileError.verification index line instruction violation = failure at stops
  cases stops with
  | header failed => exact absurd (same ▸ Header.ofListing_raises _ _ _ failed) early
  | ranges failed => exact absurd (same ▸ ExceptionRange.ofListing_raises _ _ _ _ failed) early
  | slots _ failed => exact absurd (same ▸ SlotTable.allocate_raises _ _ _ (congrArg Prod.snd failed)) early
  | code _ _ failed =>
    obtain ⟨_, _, ⟨operation, _, refused⟩ | ⟨_, _, _, _, duplicate⟩⟩ := Emission.ofListing_error rfl failed
    · exact absurd (same ▸ .operand (operation.compile_raises _ _ refused)) early
    · cases same.trans duplicate
  | verification prepared refused =>
    cases same
    exact ⟨_, _, _, _, prepared, refused⟩

/-- Whatever verification looks at assembled code, it finds nothing wrong with the form of it: with its
labels, its opcodes, its descriptors. -/
theorem assembled_keeps_form (assembler : Assembler) (source : ReadListing) :
    (∀ header ranges slots emission, assembler.Prepared source.listing header ranges slots emission →
      ∀ (verifier : Verifier) rejection,
        verifier.analyze (assembler.assemble header ranges slots emission) = .error rejection →
          rejection.violation.subject ≠ .form) ∧
    ∀ index line instruction violation,
      assembler.compile source = .error (.verification index line instruction violation) →
        violation.subject ≠ .form := by
  have formed : ∀ header ranges slots emission, assembler.Prepared source.listing header ranges slots emission →
      ∀ (verifier : Verifier) rejection,
        verifier.analyze (assembler.assemble header ranges slots emission) = .error rejection →
          rejection.violation.subject ≠ .form := by
    intro header ranges slots emission prepared verifier rejection refused
    exact (verifier.analyze_raises _ rejection refused).subject prepared.wellFormed
  refine ⟨formed, ?_⟩
  intro index line instruction violation failed
  rcases compile_error failed with ⟨_, _, _, problems⟩ | ⟨_, stops⟩
  · cases problems
  · obtain ⟨header, ranges, slots, emission, prepared, refused⟩ := stops.refused
    exact formed header ranges slots emission prepared assembler.verifier _ refused

theorem assembled_keeps_form_popping : (∃ header ranges slots emission,
    defaults.Prepared popping.listing header ranges slots emission ∧
      defaults.verifier.analyze (defaults.assemble header ranges slots emission) = .error ⟨0, .stackUnderflow⟩ ∧
        Violation.stackUnderflow.subject ≠ .form) ∧
    defaults.compile popping = .error popped ∧ Violation.stackUnderflow.subject ≠ .form := by
  obtain ⟨checked, reported⟩ := assembled_keeps_form defaults popping
  rcases compile_error popping_compile with ⟨_, _, problems, _⟩ | ⟨_, stops⟩
  · cases problems
  · obtain ⟨header, ranges, slots, emission, prepared, refused⟩ := stops.refused
    exact ⟨⟨header, ranges, slots, emission, prepared, refused,
      checked header ranges slots emission prepared defaults.verifier _ refused⟩, popping_compile,
      reported _ _ _ _ popping_compile⟩

end Assembler
end Bytecode
