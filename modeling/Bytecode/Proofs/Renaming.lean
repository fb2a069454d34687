import Bytecode.Proofs.PlacedLabels

/-! New names for labels and variables, throughout a listing. The code of the renamed listing is the same,
and where the one does not compile the other fails for the same reason, under the new name. -/

namespace Bytecode
open Verify (except_mapError_bind mapM_mapError foldlM_mapError)

/-- A name for each label and for each variable. -/
structure NewNames where
  labels : String → String
  locals : String → String

def Operation.rename (names : NewNames) : Operation → Operation
  | .variable opcode name => .variable opcode (names.locals name)
  | .increment name amount => .increment (names.locals name) amount
  | .jump opcode target => .jump opcode (names.labels target)
  | .tableSwitch least most fallback targets =>
    .tableSwitch least most (names.labels fallback) (targets.map names.labels)
  | .lookupSwitch fallback keys targets =>
    .lookupSwitch (names.labels fallback) keys (targets.map names.labels)
  | .line start number => .line (names.labels start) number
  | other => other

def TryCatch.rename (names : NewNames) (range : TryCatch) : TryCatch :=
  { range with
    start := names.labels range.start
    stop := names.labels range.stop
    handler := names.labels range.handler }

def Statement.rename (names : NewNames) : Statement → Statement
  | .label name => .label (names.labels name)
  | .operation body => .operation (body.rename names)
  | .tryCatch range => .tryCatch (range.rename names)
  | other => other

def Entry.rename (names : NewNames) (entry : Entry) : Entry := ⟨entry.line, entry.statement.rename names⟩

def Listing.rename (names : NewNames) (listing : Listing) : Listing := ⟨listing.entries.map (Entry.rename names)⟩

def ReadListing.rename (names : NewNames) (source : ReadListing) : ReadListing :=
  ⟨source.listing.rename names, source.problems⟩

/-- The same error about the new name. -/
def CompileError.rename (names : NewNames) : CompileError → CompileError
  | .unresolvedLabel site name line => .unresolvedLabel site (names.labels name) line
  | .duplicateLabel name line firstLine => .duplicateLabel (names.labels name) line firstLine
  | .undeclaredVariable name line => .undeclaredVariable (names.locals name) line
  | .invalidOperand line (.noFreeSlot name) => .invalidOperand line (.noFreeSlot (names.locals name))
  | other => other

section
variable {names : NewNames} {listing : Listing}

namespace Listing

theorem select_rename {α : Type} {choose : Statement → Option α} (replace : α → α)
    (each : ∀ statement, choose (statement.rename names) = (choose statement).map replace) :
    (listing.rename names).select choose =
      (listing.select choose).map fun (line, chosen) => (line, replace chosen) := by
  rw [select, select, rename, List.filterMap_map, List.map_filterMap]
  apply List.filterMap_congr
  intro entry _
  simp only [Function.comp_apply, Entry.rename, each]
  cases choose entry.statement <;> rfl

theorem select_rename_self {α : Type} {choose : Statement → Option α}
    (each : ∀ statement, choose (statement.rename names) = choose statement) :
    (listing.rename names).select choose = listing.select choose := by
  rw [select_rename id fun statement => by rw [each, Option.map_id]; rfl]
  exact List.map_id _

theorem labels_rename : (listing.rename names).labels =
    listing.labels.map fun (line, name) => (line, names.labels name) :=
  select_rename _ fun statement => by cases statement <;> rfl

theorem operations_rename : (listing.rename names).operations =
    listing.operations.map fun (line, operation) => (line, operation.rename names) :=
  select_rename _ fun statement => by cases statement <;> rfl

theorem tryCatches_rename : (listing.rename names).tryCatches =
    listing.tryCatches.map fun (line, range) => (line, range.rename names) :=
  select_rename _ fun statement => by cases statement <;> rfl

theorem aliases_rename : (listing.rename names).aliases = listing.aliases :=
  select_rename_self fun statement => by cases statement <;> rfl

theorem definition?_rename : (listing.rename names).definition? = listing.definition? := by
  rw [definition?, definition?, select_rename_self fun statement => by cases statement <;> rfl]

theorem signature?_rename : (listing.rename names).signature? = listing.signature? := by
  rw [signature?, signature?, select_rename_self fun statement => by cases statement <;> rfl]

theorem throws_rename : (listing.rename names).throws = listing.throws :=
  select_rename_self fun statement => by cases statement <;> rfl

end Listing

theorem Aliases.ofListing_rename : Aliases.ofListing (listing.rename names) = .ofListing listing := by
  rw [ofListing, ofListing, Listing.aliases_rename]

namespace LabelTable

def rename (names : NewNames) (table : LabelTable) : LabelTable :=
  ⟨table.entries.map fun entry => ⟨names.labels entry.name, entry.line⟩⟩

theorem get?_rename (distinct : Function.Injective names.labels) (table : LabelTable) (name : String) :
    (table.rename names).get? (names.labels name) = table.get? name := by
  have same (entry : DeclaredLabel) : (names.labels entry.name == names.labels name) = (entry.name == name) := by
    rw [Bool.eq_iff_iff, beq_iff_eq, beq_iff_eq, distinct.eq_iff]
  rw [get?, get?, rename, List.findIdx?_map]
  simp only [Function.comp_def, same]

theorem register_rename (distinct : Function.Injective names.labels) (table : LabelTable) (name : String)
    (line : Nat) : (table.rename names).register (names.labels name) line =
      (table.register name line).rename names := by
  unfold register
  rw [get?_rename distinct]
  split
  next => rfl
  next => simp [rename]

theorem ofListing_rename (distinct : Function.Injective names.labels) :
    ofListing (listing.rename names) = (ofListing listing).rename names := by
  have folded (labels : List (Nat × String)) (table : LabelTable) :
      (labels.map fun (line, name) => (line, names.labels name)).foldl
        (fun table (line, name) => table.register name line) (table.rename names) =
          (labels.foldl (fun table (line, name) => table.register name line) table).rename names := by
    induction labels generalizing table with
    | nil => rfl
    | cons label rest ih =>
      obtain ⟨line, name⟩ := label
      rw [List.map_cons, List.foldl_cons, List.foldl_cons]
      simp only [register_rename distinct, ih]
  rw [ofListing, ofListing, Listing.labels_rename]
  exact folded listing.labels empty

end LabelTable
end

/-- A descriptor is at fault under no name. -/
theorem checkedAt_rename (names : NewNames) {α : Type} (line : Nat) (checked : Except DescriptorError α) :
    (checkedAt line checked).mapError (CompileError.rename names) = checkedAt line checked := by
  cases checked <;> rfl

theorem Header.ofListing_rename (names : NewNames) (listing : Listing) (aliases : Aliases) :
    Header.ofListing (listing.rename names) aliases =
      (Header.ofListing listing aliases).mapError (CompileError.rename names) := by
  unfold Header.ofListing
  rw [Listing.definition?_rename, Listing.signature?_rename, Listing.throws_rename]
  cases listing.definition? with
  | none => rfl
  | some found =>
    have parameters (parameters : List Parameter) :
        (parameters.mapM fun parameter => checkedAt found.1 (FieldType.parse parameter.descriptor)).mapError
          (CompileError.rename names) =
            parameters.mapM fun parameter => checkedAt found.1 (FieldType.parse parameter.descriptor) := by
      rw [← mapM_mapError fun _ => (checkedAt_rename names found.1 _).symm, List.mapM_map]
      rfl
    simp only [except_mapError_bind, checkedAt_rename, parameters]
    rfl

namespace Scope
variable (scope : Scope) (names : NewNames)

theorem type_rename (name : String) :
    (scope.type name).mapError (CompileError.rename names) = scope.type name := by
  unfold type
  rw [except_mapError_bind, checkedAt_rename]
  rfl

theorem fieldDescriptor_rename (descriptor : String) :
    (scope.fieldDescriptor descriptor).mapError (CompileError.rename names) = scope.fieldDescriptor descriptor := by
  unfold fieldDescriptor
  rw [except_mapError_bind, checkedAt_rename]
  rfl

theorem methodDescriptor_rename (descriptor : String) :
    (scope.methodDescriptor descriptor).mapError (CompileError.rename names) = scope.methodDescriptor descriptor := by
  unfold methodDescriptor
  rw [except_mapError_bind, checkedAt_rename]
  rfl

theorem handle_rename (handle : Handle) :
    (scope.handle handle).mapError (CompileError.rename names) = scope.handle handle := by
  unfold Scope.handle
  rw [except_mapError_bind, type_rename]
  refine bind_congr fun owner => ?_
  simp only
  split
  next => rw [except_mapError_bind, fieldDescriptor_rename]; rfl
  next =>
    split
    next => rw [except_mapError_bind, methodDescriptor_rename]; rfl
    next => rfl

theorem constant_rename (value : Constant) :
    (scope.constant value).mapError (CompileError.rename names) = scope.constant value := by
  cases value with
  | type name => simp only [constant, except_mapError_bind, type_rename]; rfl
  | methodType descriptor => simp only [constant, except_mapError_bind, methodDescriptor_rename]; rfl
  | handle target => simp only [constant, except_mapError_bind, handle_rename]; rfl
  | _ => rfl

theorem constants_rename (values : List Constant) :
    (values.mapM scope.constant).mapError (CompileError.rename names) = values.mapM scope.constant := by
  rw [← mapM_mapError fun value => (scope.constant_rename names value).symm, List.map_id']

end Scope

/-- Tables that know each new name as the old one was known. -/
structure Tables.Renamed (names : NewNames) (tables other : Tables) : Prop where
  plain : ∀ name, tables.aliases.resolve name = name
  aliases : other.aliases = tables.aliases
  labels : ∀ name, other.labels.get? (names.labels name) = tables.labels.get? name
  slots : ∀ name line, other.slots.slot (names.locals name) line =
    (tables.slots.slot name line).mapError (CompileError.rename names)

namespace Tables.Renamed
variable {names : NewNames} {tables other : Tables} (renamed : tables.Renamed names other) (line : Nat)
include renamed

theorem label (name : String) : (other.scope line).label (names.labels name) =
    ((tables.scope line).label name).mapError (CompileError.rename names) := by
  simp only [Scope.label, Scope.resolve, Tables.scope, renamed.aliases, renamed.plain, renamed.labels]
  cases tables.labels.get? name <;> rfl

theorem slot (name : String) : (other.scope line).slot (names.locals name) =
    ((tables.scope line).slot name).mapError (CompileError.rename names) := by
  simp only [Scope.slot, Scope.resolve, Tables.scope, renamed.aliases, renamed.plain, renamed.slots]

/-- An operation with new names compiles to the same record, or fails alike. -/
theorem compile (operation : Operation) : (operation.rename names).compile (other.scope line) =
    (operation.compile (tables.scope line)).mapError (CompileError.rename names) := by
  obtain ⟨otherLabels, otherSlots, otherAliases⟩ := other
  obtain rfl : otherAliases = tables.aliases := renamed.aliases
  have shape : Scope.checkShape (Tables.scope ⟨otherLabels, otherSlots, tables.aliases⟩ line) (operation.rename names) =
      ((tables.scope line).checkShape operation).mapError (CompileError.rename names) := by
    have same : (operation.rename names).shape? = operation.shape? := by cases operation <;> rfl
    unfold Scope.checkShape
    rw [same]
    split
    next => split <;> rfl
    next => rfl
  unfold Operation.compile
  rw [shape, except_mapError_bind]
  refine bind_congr fun _ => ?_
  have known := renamed.label line
  have found := renamed.slot line
  have targets := mapM_mapError known
  have constants := Scope.constants_rename (tables.scope line) names
  cases operation with
  | simple => rfl
  | int => simp only [Operation.rename]; split <;> rfl
  | «variable» => simp only [Operation.rename, found, except_mapError_bind]; rfl
  | increment =>
    simp only [Operation.rename, found]
    split
    next => simp only [except_mapError_bind]; rfl
    next => rfl
  | jump => simp only [Operation.rename, known, except_mapError_bind]; rfl
  | constant => simp only [except_mapError_bind, Scope.constant_rename]; rfl
  | type => simp only [except_mapError_bind, Scope.type_rename]; rfl
  | field => simp only [except_mapError_bind, Scope.type_rename, Scope.fieldDescriptor_rename]; rfl
  | method => simp only [except_mapError_bind, Scope.type_rename, Scope.methodDescriptor_rename]; rfl
  | callSite =>
    simp only [except_mapError_bind, Scope.methodDescriptor_rename, Scope.handle_rename, constants]
    rfl
  | tableSwitch =>
    simp only [Operation.rename, known, List.length_map, targets]
    split
    next => rfl
    next =>
      split
      next => rfl
      next => simp only [except_mapError_bind]; rfl
  | lookupSwitch =>
    simp only [Operation.rename, known, List.length_map, targets]
    split
    next => rfl
    next =>
      split
      next => rfl
      next => simp only [except_mapError_bind]; rfl
  | newArrays descriptor dimensions =>
    simp only [except_mapError_bind, checkedAt_rename]
    refine bind_congr fun type => ?_
    split <;> rfl
  | line => simp only [Operation.rename, known, except_mapError_bind]; rfl

end Tables.Renamed

theorem ExceptionRange.ofListing_rename {names : NewNames} {labels others : LabelTable} {aliases : Aliases}
    (plain : ∀ name, aliases.resolve name = name) (known : ∀ name, others.get? (names.labels name) = labels.get? name)
    (listing : Listing) : ofListing (listing.rename names) others aliases =
      (ofListing listing labels aliases).mapError (CompileError.rename names) := by
  have each (entry : Nat × TryCatch) : ofTryCatch others aliases entry.1 (entry.2.rename names) =
      (ofTryCatch labels aliases entry.1 entry.2).mapError (CompileError.rename names) := by
    simp only [ofTryCatch, TryCatch.rename, plain, known, except_mapError_bind]
    cases labels.get? entry.2.start with
    | none => rfl
    | some =>
      cases labels.get? entry.2.stop with
      | none => rfl
      | some => cases labels.get? entry.2.handler <;> rfl
  rw [ofListing, Listing.tryCatches_rename]
  exact mapM_mapError each listing.tryCatches

namespace Emission
variable {names : NewNames} {tables other : Tables}

theorem place_rename (renamed : tables.Renamed names other) (emission : Emission) (index line : Nat) (name : String) :
    emission.place other index line (names.labels name) =
      (emission.place tables index line name).mapError (CompileError.rename names) := by
  unfold place
  rw [renamed.labels]
  cases tables.labels.get? name with
  | none => rfl
  | some label =>
    dsimp only
    cases emission.placed.lookup label <;> rfl

theorem step_rename (renamed : tables.Renamed names other) (emission : Emission) (entry : Entry) (index : Nat) :
    emission.step other (entry.rename names) index =
      (emission.step tables entry index).mapError (CompileError.rename names) := by
  obtain ⟨line, statement⟩ := entry
  cases statement with
  | label name => exact emission.place_rename renamed index line name
  | operation operation =>
    simp only [step, Entry.rename, Statement.rename, renamed.compile, except_mapError_bind]
    rfl
  | _ => rfl

theorem ofListing_rename (renamed : tables.Renamed names other) (listing : Listing) :
    ofListing other (listing.rename names) = (ofListing tables listing).mapError (CompileError.rename names) := by
  rw [ofListing, Listing.rename, List.zipIdx_map]
  exact foldlM_mapError (fun emission numbered => emission.step_rename renamed numbered.1 numbered.2) _ empty

end Emission
end Bytecode
