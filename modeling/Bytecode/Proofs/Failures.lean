import Bytecode.Assembler
import Bytecode.Proofs.SlotTables
import Bytecode.Proofs.StepResults

/-! What the passes of the assembler fail with: an operand is faulted at the line of its statement, and
no pass before the verification shows an instruction. -/

namespace Bytecode
open Verify (except_bind_ok except_bind_error mapError_ok)

/-- Every failure of a computation is of a kind. -/
def Raises {ε α : Type} (kind : ε → Prop) (computation : Except ε α) : Prop :=
  ∀ failure, computation = .error failure → kind failure

namespace Raises
variable {ε α β : Type} {kind : ε → Prop}

theorem ok (value : α) : Raises kind (.ok value) := by
  intro failure failed
  cases failed

theorem error {failure : ε} (known : kind failure) : Raises kind (.error failure : Except ε α) := by
  intro other failed
  cases failed
  exact known

/-- What comes second may take for granted that the first succeeded. -/
theorem bind_of_ok {first : Except ε α} {next : α → Except ε β} (early : Raises kind first)
    (late : ∀ value, first = .ok value → Raises kind (next value)) : Raises kind (first >>= next) := by
  cases first with
  | error failure => exact error (early failure rfl)
  | ok value => exact late value rfl

theorem bind {first : Except ε α} {next : α → Except ε β} (early : Raises kind first)
    (late : ∀ value, Raises kind (next value)) : Raises kind (first >>= next) :=
  early.bind_of_ok fun value _ => late value

theorem mono {weaker : ε → Prop} {computation : Except ε α} (raises : Raises kind computation)
    (step : ∀ failure, kind failure → weaker failure) : Raises weaker computation :=
  fun failure failed => step failure (raises failure failed)

theorem mapM_of_mem {f : α → Except ε β} {inputs : List α} (each : ∀ input ∈ inputs, Raises kind (f input)) :
    Raises kind (inputs.mapM f) := by
  induction inputs with
  | nil => exact ok []
  | cons input rest ih =>
    rw [List.mapM_cons]
    apply (each input List.mem_cons_self).bind
    intro value
    apply (ih fun other listed => each other (List.mem_cons_of_mem _ listed)).bind
    intro values
    exact ok (value :: values)

theorem mapM {f : α → Except ε β} {inputs : List α} (each : ∀ input, Raises kind (f input)) :
    Raises kind (inputs.mapM f) :=
  mapM_of_mem fun input _ => each input

theorem foldlM {f : β → α → Except ε β} {inputs : List α} {first : β}
    (each : ∀ before input, Raises kind (f before input)) : Raises kind (inputs.foldlM f first) := by
  induction inputs generalizing first with
  | nil => exact ok first
  | cons input rest ih =>
    rw [List.foldlM_cons]
    exact (each first input).bind fun _ => ih

theorem map {computation : Except ε α} {f : α → β} (raises : Raises kind computation) :
    Raises kind (computation.map f) := by
  cases computation with
  | ok value => exact ok (f value)
  | error failure => exact error (raises failure rfl)

theorem mapError {δ : Type} {outer : δ → Prop} {rename : ε → δ} {computation : Except ε α}
    (raises : Raises kind computation) (known : ∀ failure, kind failure → outer (rename failure)) :
    Raises outer (computation.mapError rename) := by
  cases computation with
  | ok value => exact ok value
  | error failure => exact error (known failure (raises failure rfl))

end Raises

/-- An error about an operand of a statement on a line. -/
inductive CompileError.OfOperand (line : Nat) : CompileError → Prop where
  | label (site : LabelSite) (name : String) : OfOperand line (.unresolvedLabel site name line)
  | variable (name : String) : OfOperand line (.undeclaredVariable name line)
  | value (fault : OperandFault) : OfOperand line (.invalidOperand line fault)
  | descriptor (cause : DescriptorError) : OfOperand line (.descriptor line cause)

open CompileError (OfOperand)

theorem checkedAt_raises {α : Type} (line : Nat) (checked : Except DescriptorError α) :
    Raises (OfOperand line) (checkedAt line checked) := by
  cases checked with
  | ok value => exact .ok value
  | error cause => exact .error (.descriptor cause)

namespace Scope
variable (scope : Scope)

theorem fail_raises {α : Type} (fault : OperandFault) :
    Raises (OfOperand scope.line) (scope.fail fault : Except CompileError α) :=
  .error (.value fault)

theorem label_raises (name : String) : Raises (OfOperand scope.line) (scope.label name) := by
  unfold label
  split
  next mark _ => exact .ok mark
  next => exact .error (.label _ _)

theorem slot_raises (name : String) : Raises (OfOperand scope.line) (scope.slot name) := by
  unfold slot SlotTable.slot
  split
  next slot _ => exact .ok slot
  next entry _ _ => exact .ok entry.index
  next => exact .error (.variable _)

theorem type_raises (name : String) : Raises (OfOperand scope.line) (scope.type name) :=
  (checkedAt_raises _ _).bind fun _ => .ok _

theorem fieldDescriptor_raises (descriptor : String) :
    Raises (OfOperand scope.line) (scope.fieldDescriptor descriptor) :=
  (checkedAt_raises _ _).bind fun _ => .ok _

theorem methodDescriptor_raises (descriptor : String) :
    Raises (OfOperand scope.line) (scope.methodDescriptor descriptor) :=
  (checkedAt_raises _ _).bind fun _ => .ok _

theorem handle_raises (handle : Handle) : Raises (OfOperand scope.line) (scope.handle handle) := by
  refine (scope.type_raises _).bind fun owner => ?_
  simp only
  split
  next => exact (scope.fieldDescriptor_raises _).bind fun _ => .ok _
  next =>
    split
    next => exact (scope.methodDescriptor_raises _).bind fun _ => .ok _
    next => exact (scope.fail_raises _).bind fun _ => .ok _

theorem constant_raises (value : Constant) : Raises (OfOperand scope.line) (scope.constant value) := by
  cases value with
  | type name => exact (scope.type_raises name).bind fun _ => .ok _
  | methodType descriptor => exact (scope.methodDescriptor_raises descriptor).bind fun _ => .ok _
  | handle target => exact (scope.handle_raises target).bind fun _ => .ok _
  | _ => exact .ok _

theorem checkShape_raises (operation : Operation) :
    Raises (OfOperand scope.line) (scope.checkShape operation) := by
  unfold checkShape
  split
  next =>
    split
    next => exact .ok ()
    next => exact scope.fail_raises _
  next => exact .ok ()

end Scope

theorem Operation.compile_raises (scope : Scope) (operation : Operation) :
    Raises (OfOperand scope.line) (operation.compile scope) := by
  refine (scope.checkShape_raises operation).bind fun _ => ?_
  cases operation with
  | simple => exact .ok _
  | int =>
    simp only
    split
    next => exact .ok _
    next => exact scope.fail_raises _
  | «variable» opcode name => exact (scope.slot_raises name).bind fun _ => .ok _
  | increment name =>
    simp only
    split
    next => exact (scope.slot_raises name).bind fun _ => .ok _
    next => exact scope.fail_raises _
  | jump opcode target => exact (scope.label_raises target).bind fun _ => .ok _
  | constant value => exact (scope.constant_raises value).bind fun _ => .ok _
  | type opcode name => exact (scope.type_raises name).bind fun _ => .ok _
  | field opcode owner name descriptor =>
    exact (scope.type_raises owner).bind fun _ =>
      (scope.fieldDescriptor_raises descriptor).bind fun _ => .ok _
  | method opcode owner name descriptor =>
    exact (scope.type_raises owner).bind fun _ =>
      (scope.methodDescriptor_raises descriptor).bind fun _ => .ok _
  | callSite name descriptor bootstrap =>
    refine (scope.methodDescriptor_raises descriptor).bind fun _ => ?_
    refine (Raises.mapM scope.constant_raises).bind fun _ => ?_
    exact (scope.handle_raises bootstrap).bind fun _ => .ok _
  | tableSwitch least most fallback | lookupSwitch fallback =>
    simp only
    split
    next => exact scope.fail_raises _
    next =>
      split
      next => exact scope.fail_raises _
      next =>
        exact (scope.label_raises fallback).bind fun _ =>
          (Raises.mapM scope.label_raises).bind fun _ => .ok _
  | newArrays =>
    refine (checkedAt_raises _ _).bind fun _ => ?_
    split
    next => exact scope.fail_raises _
    next => exact .ok _
  | line start => exact (scope.label_raises start).bind fun _ => .ok _

/-- A header has the names of the parameters of the first definition, and a descriptor that denotes a type. -/
theorem Header.ofListing_ok {listing : Listing} {aliases : Aliases} {header : Header}
    (read : Header.ofListing listing aliases = .ok header) : ∃ line definition,
      listing.definition? = some (line, definition) ∧
        (∀ parameter ∈ header.parameters, ∃ written ∈ definition.parameters, written.name = parameter.name) ∧
        ∃ type, MethodType.parse header.descriptor = .ok type := by
  unfold Header.ofListing at read
  cases found : listing.definition? with
  | none =>
    rw [found] at read
    cases read
  | some pair =>
    rw [found] at read
    obtain ⟨_, _, read⟩ := except_bind_ok.mp read
    obtain ⟨type, parsed, same⟩ := except_bind_ok.mp read
    cases same
    refine ⟨pair.1, pair.2, rfl, ?_, type, mapError_ok.mp parsed⟩
    intro parameter listed
    obtain ⟨written, among, rfl⟩ := List.mem_map.mp listed
    exact ⟨written, among, rfl⟩

/-- A header is refused for a descriptor of the first definition. -/
theorem Header.ofListing_error {listing : Listing} {aliases : Aliases} {line : Nat} {definition : Definition}
    {failure : CompileError} (first : listing.definition? = some (line, definition))
    (failed : Header.ofListing listing aliases = .error failure) : ∃ cause, failure = .descriptor line cause := by
  have checked {α : Type} (type : Except DescriptorError α) :
      Raises (fun failure => ∃ cause, failure = .descriptor line cause) (checkedAt line type) := by
    cases type with
    | ok type => exact .ok type
    | error cause => exact .error ⟨cause, rfl⟩
  have raises : Raises (fun failure => ∃ cause, failure = CompileError.descriptor line cause)
      (Header.ofListing listing aliases) := by
    unfold Header.ofListing
    rw [first]
    refine (Raises.mapM fun _ => checked _).bind fun _ => ?_
    exact (checked _).bind fun _ => .ok _
  exact raises failure failed

/-- The labels that a range names, in the order in which they are looked up. -/
def TryCatch.sites (aliases : Aliases) (range : TryCatch) : List (LabelSite × String) :=
  [(.start, aliases.resolve range.start), (.stop, aliases.resolve range.stop),
    (.handler, aliases.resolve range.handler)]

namespace ExceptionRange
variable {labels : LabelTable} {aliases : Aliases} {line : Nat} {range : TryCatch}

theorem ofTryCatch_ok {resolved : ExceptionRange} (found : ofTryCatch labels aliases line range = .ok resolved) :
    labels.get? (aliases.resolve range.start) = some resolved.start ∧
      labels.get? (aliases.resolve range.stop) = some resolved.stop ∧
      labels.get? (aliases.resolve range.handler) = some resolved.handler := by
  unfold ofTryCatch at found
  extract_lets resolve at found
  have known {site : LabelSite} {name : String} {label : Label} (done : resolve site name = .ok label) :
      labels.get? (aliases.resolve name) = some label := by
    simp only [resolve] at done
    split at done
    next there =>
      cases done
      exact there
    next => cases done
  obtain ⟨start, starts, found⟩ := except_bind_ok.mp found
  obtain ⟨stop, stops, found⟩ := except_bind_ok.mp found
  obtain ⟨handler, handles, same⟩ := except_bind_ok.mp found
  cases same
  exact ⟨known starts, known stops, known handles⟩

/-- A range is refused for the first of its labels that is not known. -/
theorem ofTryCatch_error {failure : CompileError} (failed : ofTryCatch labels aliases line range = .error failure) :
    ∃ known site name rest, range.sites aliases = known ++ (site, name) :: rest ∧
      (∀ named ∈ known, (labels.get? named.2).isSome = true) ∧ labels.get? name = none ∧
        failure = .unresolvedLabel site name line := by
  unfold ofTryCatch at failed
  extract_lets resolve at failed
  have known {site : LabelSite} {name : String} {label : Label} (done : resolve site name = .ok label) :
      (labels.get? (aliases.resolve name)).isSome = true := by
    simp only [resolve] at done
    split at done
    next there => rw [there]; rfl
    next => cases done
  have missing {site : LabelSite} {name : String} (refused : resolve site name = .error failure) :
      labels.get? (aliases.resolve name) = none ∧ failure = .unresolvedLabel site (aliases.resolve name) line := by
    simp only [resolve] at refused
    split at refused
    next => cases refused
    next unknown =>
      cases refused
      exact ⟨unknown, rfl⟩
  rcases except_bind_error.mp failed with refused | ⟨_, starts, failed⟩
  · obtain ⟨unknown, rfl⟩ := missing refused
    exact ⟨[], _, _, _, rfl, nofun, unknown, rfl⟩
  rcases except_bind_error.mp failed with refused | ⟨_, stops, failed⟩
  · obtain ⟨unknown, rfl⟩ := missing refused
    exact ⟨[_], _, _, _, rfl, by simpa using known starts, unknown, rfl⟩
  rcases except_bind_error.mp failed with refused | ⟨_, _, impossible⟩
  · obtain ⟨unknown, rfl⟩ := missing refused
    exact ⟨[_, _], _, _, _, rfl, by simpa using ⟨known starts, known stops⟩, unknown, rfl⟩
  · cases impossible

end ExceptionRange

/-- A name that is stored to has the line of one of its stores. -/
theorem SlotUse.declare_line {uses : List SlotUse} {name : DeclaredName} (listed : name ∈ uses.foldl declare []) :
    ∃ use ∈ uses, use.name = name.name ∧ use.line = name.line := by
  have source (declared : List DeclaredName) (listed : name ∈ uses.foldl declare declared) :
      (∃ use ∈ uses, use.name = name.name ∧ use.line = name.line) ∨
        ∃ old ∈ declared, old.name = name.name ∧ old.line = name.line := by
    clear * - listed
    induction uses generalizing declared with
    | nil => exact .inr ⟨name, listed, rfl, rfl⟩
    | cons use rest ih =>
      rcases ih _ listed with ⟨other, among, same⟩ | ⟨old, among, same⟩
      · exact .inl ⟨other, List.mem_cons_of_mem _ among, same⟩
      unfold declare at among
      split at among
      next =>
        obtain ⟨before, there, rfl⟩ := List.mem_map.mp among
        exact .inr ⟨before, there, by split at same <;> exact same⟩
      next =>
        rcases List.mem_append.mp among with there | last
        · exact .inr ⟨old, there, same⟩
        · obtain rfl := List.mem_singleton.mp last
          exact .inl ⟨use, List.mem_cons_self, same⟩
  exact (source [] listed).resolve_right (by simp)

namespace SlotTable
variable {table final : SlotTable} {failure : CompileError}

theorem place_error {declared : List DeclaredName} (failed : table.place declared = (final, .error failure)) :
    ∃ name ∈ declared, failure = .invalidOperand name.line (.noFreeSlot name.name) := by
  induction declared generalizing table with
  | nil => cases failed
  | cons name rest ih =>
    rw [place_cons] at failed
    split at failed
    next =>
      obtain ⟨other, listed, same⟩ := ih failed
      exact ⟨other, List.mem_cons_of_mem _ listed, same⟩
    next =>
      cases failed
      exact ⟨name, List.mem_cons_self, rfl⟩

/-- Slots run out for a use by number that does not fit, or for a store to a new name. -/
theorem allocate_error {uses : List SlotUse} (failed : table.allocate uses = (final, .error failure)) :
    (∃ use ∈ uses, ∃ slot, slotNumber? use.name = some slot ∧ fitsSlots slot use.width = false ∧
      failure = .invalidOperand use.line (.slotOutOfRange slot use.width)) ∨
    ∃ use ∈ uses, slotNumber? use.name = none ∧ use.isStore = true ∧ table.contains use.name = false ∧
      failure = .invalidOperand use.line (.noFreeSlot use.name) := by
  unfold allocate at failed
  extract_lets numbered fitting reserved stores at failed
  split at failed
  next use slot found =>
    cases congrArg Prod.snd failed
    obtain ⟨other, listed, same⟩ := List.mem_filterMap.mp (List.mem_of_find?_eq_some found)
    obtain ⟨number, known, pair⟩ := Option.map_eq_some_iff.mp same
    cases pair
    exact .inl ⟨use, listed, slot, known, by simpa using List.find?_some found, rfl⟩
  next =>
    obtain ⟨name, declared, rfl⟩ := place_error failed
    obtain ⟨use, stored, same, there⟩ := SlotUse.declare_line declared
    obtain ⟨listed, kind⟩ := List.mem_filter.mp stored
    simp only [Bool.and_eq_true, Option.isNone_iff_eq_none, Bool.not_eq_true'] at kind
    exact .inr ⟨use, listed, kind.1.1, kind.1.2, kind.2, by rw [same, there]⟩

end SlotTable

/-- An error in what a listing says, found before its code is put together. -/
inductive CompileError.OfStatement : CompileError → Prop where
  | missing : OfStatement .missingDefinition
  | operand {line : Nat} {failure : CompileError} (about : OfOperand line failure) : OfStatement failure

open CompileError (OfStatement)

theorem Header.ofListing_raises (listing : Listing) (aliases : Aliases) :
    Raises OfStatement (Header.ofListing listing aliases) := by
  intro failure failed
  cases first : listing.definition? with
  | none =>
    unfold Header.ofListing at failed
    rw [first] at failed
    cases failed
    exact .missing
  | some found =>
    obtain ⟨cause, rfl⟩ := ofListing_error first failed
    exact .operand (.descriptor cause)

theorem ExceptionRange.ofListing_raises (listing : Listing) (labels : LabelTable) (aliases : Aliases) :
    Raises OfStatement (ExceptionRange.ofListing listing labels aliases) := by
  apply Raises.mapM
  intro entry failure failed
  obtain ⟨_, site, name, _, _, _, _, rfl⟩ := ofTryCatch_error failed
  exact .operand (.label site name)

theorem SlotTable.allocate_raises (table : SlotTable) (uses : List SlotUse) :
    Raises OfStatement (table.allocate uses).2 := by
  intro failure failed
  rcases allocate_error (Prod.ext rfl failed) with ⟨use, _, slot, _, _, rfl⟩ | ⟨use, _, _, _, _, rfl⟩
  · exact .operand (.value _)
  · exact .operand (.value _)

end Bytecode
