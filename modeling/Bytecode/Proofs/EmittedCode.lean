import Bytecode.Assembler
import Bytecode.Proofs.StepResults

/-! What the parts of an assembled method come from: each record from its statement, which it repeats
with the operands resolved, and the method from its header, its code and its slots. -/

namespace Bytecode
open Verify (except_bind_ok except_bind_error map_ok map_error mapError_ok mapError_error foldlM_holds)

/-- Statements by what they are for; labels and operations make up the code together. -/
inductive StatementKind where
  | code
  | definition
  | tryCatch
  | alias
  | throws
  | signature
  deriving DecidableEq, Repr

def Statement.kind : Statement → StatementKind
  | .label _ | .operation _ => .code
  | .definition _ => .definition
  | .tryCatch _ => .tryCatch
  | .alias _ _ => .alias
  | .throws _ => .throws
  | .signature _ => .signature

/-- An instruction stands for the statement in the code. -/
def Statement.emits (statement : Statement) : Bool := statement.kind == .code

/-- What an operation of the right shape compiles to. -/
inductive Scope.Compiles (scope : Scope) : Operation → Instruction → Prop where
  | simple {opcode} : Compiles scope (.simple opcode) (.simple opcode)
  | int {opcode operand} (taken : opcode.takesInt operand = true) :
    Compiles scope (.int opcode operand) (.int opcode operand)
  | variable {opcode name slot} (found : scope.slot name = .ok slot) :
    Compiles scope (.variable opcode name) (.variable opcode slot)
  | increment {name amount slot} (least : -32768 ≤ amount.toInt) (most : amount.toInt ≤ 32767)
    (found : scope.slot name = .ok slot) :
    Compiles scope (.increment name amount) (.increment slot amount.toInt16)
  | jump {opcode target label} (found : scope.label target = .ok label) :
    Compiles scope (.jump opcode target) (.jump opcode label)
  | constant {value constant} (resolved : scope.constant value = .ok constant) :
    Compiles scope (.constant value) (.constant constant)
  | type {opcode name type} (checked : scope.type name = .ok type) :
    Compiles scope (.type opcode name) (.type opcode type)
  | field {opcode owner name descriptor type form} (owned : scope.type owner = .ok type)
    (described : scope.fieldDescriptor descriptor = .ok form) :
    Compiles scope (.field opcode owner name descriptor) (.field opcode type (scope.resolve name) form)
  | method {opcode owner name descriptor onInterface type form} (owned : scope.type owner = .ok type)
    (described : scope.methodDescriptor descriptor = .ok form) :
    Compiles scope (.method opcode owner name descriptor onInterface)
      (.method opcode type (scope.resolve name) form onInterface)
  | callSite {name descriptor bootstrap arguments form values target}
    (described : scope.methodDescriptor descriptor = .ok form)
    (resolved : arguments.mapM scope.constant = .ok values) (linked : scope.handle bootstrap = .ok target) :
    Compiles scope (.callSite name descriptor bootstrap arguments) (.callSite name form target values)
  | tableSwitch {least most fallback targets label labels} (ordered : ¬ most < least)
    (full : (targets.length : Int) = most.toInt - least.toInt + 1) (otherwise : scope.label fallback = .ok label)
    (found : targets.mapM scope.label = .ok labels) :
    Compiles scope (.tableSwitch least most fallback targets) (.tableSwitch least most label labels)
  | lookupSwitch {fallback keys targets label labels} (paired : keys.length = targets.length)
    (ascending : isAscending keys = true) (otherwise : scope.label fallback = .ok label)
    (found : targets.mapM scope.label = .ok labels) :
    Compiles scope (.lookupSwitch fallback keys targets) (.lookupSwitch label keys labels)
  | newArrays {descriptor dimensions type}
    (parsed : FieldType.parse (scope.resolve descriptor) = .ok type) (some : dimensions ≠ 0)
    (within : dimensions.toNat ≤ type.dimensions) :
    Compiles scope (.newArrays descriptor dimensions) (.newArrays (scope.resolve descriptor) dimensions)
  | line {start number label} (found : scope.label start = .ok label) :
    Compiles scope (.line start number) (.line number label)

theorem Operation.compile_ok {scope : Scope} {operation : Operation} {instruction : Instruction} :
    operation.compile scope = .ok instruction ↔
      scope.checkShape operation = .ok () ∧ scope.Compiles operation instruction := by
  unfold compile
  rw [except_bind_ok]
  constructor
  · intro compiled
    obtain ⟨⟨⟩, shaped, compiled⟩ := compiled
    refine ⟨shaped, ?_⟩
    cases operation with
    | simple =>
      cases compiled
      exact .simple
    | int =>
      simp only at compiled
      split at compiled
      next taken =>
        cases compiled
        exact .int taken
      next => cases compiled
    | «variable» =>
      obtain ⟨slot, found, same⟩ := except_bind_ok.mp compiled
      cases same
      exact .variable found
    | increment =>
      simp only at compiled
      split at compiled
      next within =>
        obtain ⟨slot, found, same⟩ := except_bind_ok.mp compiled
        cases same
        simp only [Bool.and_eq_true, decide_eq_true_eq] at within
        exact .increment within.1 within.2 found
      next => cases compiled
    | jump =>
      obtain ⟨label, found, same⟩ := except_bind_ok.mp compiled
      cases same
      exact .jump found
    | constant =>
      obtain ⟨constant, resolved, same⟩ := except_bind_ok.mp compiled
      cases same
      exact .constant resolved
    | type =>
      obtain ⟨type, checked, same⟩ := except_bind_ok.mp compiled
      cases same
      exact .type checked
    | field =>
      obtain ⟨type, owned, compiled⟩ := except_bind_ok.mp compiled
      obtain ⟨form, described, same⟩ := except_bind_ok.mp compiled
      cases same
      exact .field owned described
    | method =>
      obtain ⟨type, owned, compiled⟩ := except_bind_ok.mp compiled
      obtain ⟨form, described, same⟩ := except_bind_ok.mp compiled
      cases same
      exact .method owned described
    | callSite =>
      obtain ⟨form, described, compiled⟩ := except_bind_ok.mp compiled
      obtain ⟨values, resolved, compiled⟩ := except_bind_ok.mp compiled
      obtain ⟨target, linked, same⟩ := except_bind_ok.mp compiled
      cases same
      exact .callSite described resolved linked
    | tableSwitch =>
      simp only at compiled
      split at compiled
      next => cases compiled
      next ordered =>
        split at compiled
        next => cases compiled
        next full =>
          obtain ⟨label, otherwise, compiled⟩ := except_bind_ok.mp compiled
          obtain ⟨labels, found, same⟩ := except_bind_ok.mp compiled
          cases same
          exact .tableSwitch ordered (not_not.mp full) otherwise found
    | lookupSwitch =>
      simp only at compiled
      split at compiled
      next => cases compiled
      next paired =>
        split at compiled
        next => cases compiled
        next ascending =>
          obtain ⟨label, otherwise, compiled⟩ := except_bind_ok.mp compiled
          obtain ⟨labels, found, same⟩ := except_bind_ok.mp compiled
          cases same
          exact .lookupSwitch (not_not.mp paired) (by simpa using ascending) otherwise found
    | newArrays =>
      obtain ⟨type, parsed, compiled⟩ := except_bind_ok.mp compiled
      split at compiled
      next => cases compiled
      next within =>
        cases compiled
        simp only [Bool.or_eq_true, decide_eq_true_eq, not_or, Nat.not_lt] at within
        exact .newArrays (mapError_ok.mp parsed) within.1 within.2
    | line =>
      obtain ⟨label, found, same⟩ := except_bind_ok.mp compiled
      cases same
      exact .line found
  · intro result
    obtain ⟨shaped, compiles⟩ := result
    refine ⟨(), shaped, ?_⟩
    cases compiles with
    | simple => rfl
    | int taken => exact if_pos taken
    | «variable» found | jump found | constant found | type found | line found =>
      simp only [found]
      rfl
    | increment least most found =>
      simp only [least, most, found]
      rfl
    | field owned described | method owned described =>
      simp only [owned, described]
      rfl
    | callSite described resolved linked =>
      simp only [described, resolved, linked]
      rfl
    | tableSwitch ordered full otherwise found =>
      simp only [if_neg ordered, if_neg (not_not.mpr full), otherwise, found]
      rfl
    | lookupSwitch paired ascending otherwise found =>
      simp only [if_neg (not_not.mpr paired), ascending, otherwise, found]
      rfl
    | newArrays parsed positive within =>
      refine except_bind_ok.mpr ⟨_, mapError_ok.mpr parsed, ?_⟩
      simp [positive, Nat.not_lt.mpr within]
      rfl

/-- A record comes from a statement of the listing, in what scope it may be. -/
inductive Tables.Emits (tables : Tables) (listing : Listing) (origin : Origin) : Instruction → Prop where
  | label {name mark} (stands : listing.entries[origin.entry]? = some ⟨origin.line, .label name⟩)
      (known : tables.labels.get? name = some mark) : Emits tables listing origin (.label mark)
  | operation {operation instruction}
      (stands : listing.entries[origin.entry]? = some ⟨origin.line, .operation operation⟩)
      (compiled : operation.compile (tables.scope origin.line) = .ok instruction) :
      Emits tables listing origin instruction

namespace Emission
variable {tables : Tables} {listing : Listing} {emission : Emission}

/-- Every record has its origin. -/
structure Traced (tables : Tables) (listing : Listing) (emission : Emission) : Prop where
  size : emission.origins.entries.size = emission.instructions.size
  emits : ∀ (index : Nat) instruction, emission.instructions[index]? = some instruction →
    ∃ origin, emission.origins.entries[index]? = some origin ∧ tables.Emits listing origin instruction

theorem Traced.push (traced : Traced tables listing emission) {entry line : Nat} {instruction : Instruction}
    (emits : tables.Emits listing ⟨entry, line⟩ instruction) :
    Traced tables listing (emission.push entry line instruction) := by
  refine ⟨by simp [Emission.push, traced.size], ?_⟩
  intro index other present
  simp only [Emission.push, Array.getElem?_push] at present ⊢
  rw [traced.size]
  split at present
  next last =>
    cases present
    rw [if_pos last]
    exact ⟨_, rfl, emits⟩
  next earlier =>
    rw [if_neg earlier]
    exact traced.emits index other present

theorem Traced.step (traced : Traced tables listing emission) {entry : Entry} {index : Nat} {after : Emission}
    (stands : listing.entries[index]? = some entry)
    (stepped : emission.step tables entry index = .ok after) : Traced tables listing after := by
  obtain ⟨line, statement⟩ := entry
  unfold Emission.step at stepped
  cases statement with
  | label name =>
    simp only [Emission.place] at stepped
    split at stepped
    next => cases stepped
    next mark known =>
      split at stepped
      next => cases stepped
      next =>
        cases stepped
        have emits : tables.Emits listing ⟨index, line⟩ (.label mark) := .label stands known
        have pushed := traced.push emits
        exact ⟨pushed.size, pushed.emits⟩
  | operation operation =>
    obtain ⟨instruction, compiled, same⟩ := except_bind_ok.mp stepped
    cases same
    have emits : tables.Emits listing ⟨index, line⟩ instruction := .operation stands compiled
    exact traced.push emits
  | _ =>
    cases stepped
    exact traced

theorem traced_ofListing (emitted : Emission.ofListing tables listing = .ok emission) :
    Traced tables listing emission := by
  apply foldlM_holds (Traced tables listing) ⟨rfl, by simp [Emission.empty]⟩ ?_ emitted
  intro before entry after listed traced stepped
  exact traced.step (List.mem_zipIdx_iff_getElem?.mp listed) stepped

end Emission

namespace Assembler
variable {assembler : Assembler} {source : ReadListing} {assembly : Assembly} {compilation : Compilation}

/-- The parts that an assembled method with code is put together from. -/
structure Parts (assembler : Assembler) (source : ReadListing) (assembly : Assembly)
    (compilation : Compilation) (header : Header) (slots : SlotTable) (emission : Emission) : Prop where
  allocated : (assembler.initialSlots header).allocate
    (SlotUse.ofListing source.listing (.ofListing source.listing)) = (slots, .ok ())
  emitted : Emission.ofListing ⟨.ofListing source.listing, slots, .ofListing source.listing⟩
    source.listing = .ok emission
  instructions : assembly.method.instructions = emission.instructions
  maxLocals : assembly.method.maxLocals = slots.high
  origins : compilation.origins = emission.origins
  labels : compilation.tables.labels = .ofListing source.listing
  aliases : compilation.tables.aliases = .ofListing source.listing
  names : ∀ name, compilation.tables.slots.get? name = slots.get? name
  access : assembly.method.access = header.access
  ranges : ExceptionRange.ofListing source.listing (.ofListing source.listing)
    (.ofListing source.listing) = .ok assembly.method.ranges
  observed : assembly.frames.isSome = assembler.config.verify
  verified : ∀ frames, assembly.frames = some frames →
    assembler.verifier.analyze assembly.method = .ok frames ∧
      compilation.tables.slots = slots.inferRanges frames.toList
  variableTable : assembly.method.variableTable = if assembler.config.variableTable then
    some (compilation.tables.slots.localVariables assembly.method.instructions.toList) else none
  slots : ∃ live, compilation.tables.slots = { slots with live }

theorem compile_ok (compiled : assembler.compile source = .ok assembly) :
    ∃ header, Header.ofListing source.listing (.ofListing source.listing) = .ok header ∧
      (header.isAbstract = true ∧ assembly.compilation = none ∧ assembly.method = .ofHeader header ∨
        header.isAbstract = false ∧ ∃ compilation slots emission, assembly.compilation = some compilation ∧
          Parts assembler source assembly compilation header slots emission) := by
  unfold Assembler.compile at compiled
  split at compiled
  next => cases compiled
  next =>
    obtain ⟨header, read, compiled⟩ := except_bind_ok.mp compiled
    refine ⟨header, read, ?_⟩
    split at compiled
    next bare =>
      cases compiled
      exact .inl ⟨bare, rfl, rfl⟩
    next full =>
      refine .inr ⟨by simpa using full, ?_⟩
      unfold Assembler.compileCode at compiled
      obtain ⟨ranges, resolved, compiled⟩ := except_bind_ok.mp compiled
      cases taken : (assembler.initialSlots header).allocate
        (SlotUse.ofListing source.listing (.ofListing source.listing)) with
      | mk slots outcome =>
      rw [taken] at compiled
      obtain ⟨⟨⟩, done, compiled⟩ := except_bind_ok.mp compiled
      rw [show outcome = .ok () from done] at taken
      obtain ⟨emission, emitted, compiled⟩ := except_bind_ok.mp compiled
      simp only at compiled
      split at compiled
      next verifies =>
        obtain ⟨⟨found, inferred⟩, verified, same⟩ := except_bind_ok.mp compiled
        obtain ⟨accepted, analyzed, checked⟩ := except_bind_ok.mp verified
        cases checked
        cases same
        refine ⟨_, slots, emission, rfl, taken, emitted, rfl, rfl, rfl, rfl, rfl, fun _ => rfl, rfl,
          resolved, verifies.symm, ?_, rfl, _, rfl⟩
        intro frames same
        cases same
        exact ⟨mapError_ok.mp analyzed, rfl⟩
      next unverified =>
        cases compiled
        refine ⟨_, slots, emission, rfl, taken, emitted, rfl, rfl, rfl, rfl, rfl, fun _ => rfl, rfl,
          resolved, ?_, nofun, rfl, _, rfl⟩
        simpa using unverified

theorem compile_parts (compiled : assembler.compile source = .ok assembly)
    (made : assembly.compilation = some compilation) :
    ∃ header slots emission, Parts assembler source assembly compilation header slots emission := by
  obtain ⟨header, _, ⟨_, bare, _⟩ | ⟨_, other, slots, emission, also, parts⟩⟩ := compile_ok compiled
  · rw [bare] at made
    cases made
  · cases also.symm.trans made
    exact ⟨header, slots, emission, parts⟩

/-- The method that verification looks at. -/
def assemble (assembler : Assembler) (header : Header) (ranges : List ExceptionRange) (slots : SlotTable)
    (emission : Emission) : Method :=
  { Method.ofHeader header with
    instructions := emission.instructions
    ranges
    maxStack := assembler.config.maxStack
    maxLocals := slots.high }

/-- The method with the variable table that is asked for. -/
def withTable (assembler : Assembler) (method : Method) (slots : SlotTable) : Method :=
  { method with
    variableTable :=
      if assembler.config.variableTable then some (slots.localVariables method.instructions.toList) else none }

/-- The last stage of a compilation, from the emitted code to the assembly. -/
def conclude (assembler : Assembler) (header : Header) (ranges : List ExceptionRange) (tables : Tables)
    (emission : Emission) : Except CompileError Assembly :=
  let method := assembler.assemble header ranges tables.slots emission
  if assembler.config.verify then
    ((assembler.verifier.analyze method).mapError (rejected method emission.origins)).map fun frames =>
      let slots := tables.slots.inferRanges frames.toList
      ⟨assembler.withTable method slots, some frames, some ⟨{ tables with slots }, emission.origins⟩⟩
  else .ok ⟨assembler.withTable method tables.slots, none, some ⟨tables, emission.origins⟩⟩

theorem compileCode_eq (listing : Listing) (aliases : Aliases) (header : Header) :
    assembler.compileCode listing aliases header = (do
      let ranges ← ExceptionRange.ofListing listing (.ofListing listing) aliases
      let (slots, allocated) := (assembler.initialSlots header).allocate (SlotUse.ofListing listing aliases)
      allocated
      let tables : Tables := ⟨.ofListing listing, slots, aliases⟩
      let emission ← Emission.ofListing tables listing
      assembler.conclude header ranges tables emission) := by
  unfold compileCode
  refine bind_congr fun ranges => ?_
  cases (assembler.initialSlots header).allocate (SlotUse.ofListing listing aliases) with
  | mk slots allocated =>
  refine bind_congr fun _ => bind_congr fun emission => ?_
  unfold conclude verify
  cases assembler.config.verify with
  | false => rfl
  | true =>
    have assembled : assembler.verifier.analyze
        { Method.ofHeader header with
          instructions := emission.instructions
          ranges
          maxStack := assembler.config.maxStack
          maxLocals := slots.high } =
        assembler.verifier.analyze (assembler.assemble header ranges slots emission) := rfl
    simp only [if_true, assembled]
    cases assembler.verifier.analyze (assembler.assemble header ranges slots emission) <;> rfl

theorem compile_problems (listing : Listing) (first : Problem) (rest : List Problem) :
    assembler.compile ⟨listing, first :: rest⟩ = .error (.problems first rest) :=
  rfl

theorem compile_eq (listing : Listing) : assembler.compile ⟨listing, []⟩ = (do
    let header ← Header.ofListing listing (.ofListing listing)
    if header.isAbstract then return { method := Method.ofHeader header, frames := none, compilation := none }
    else assembler.compileCode listing (.ofListing listing) header) :=
  rfl

/-- What a listing compiles to whose parts are at hand. -/
theorem compile_of_parts {header : Header} {ranges : List ExceptionRange} {slots : SlotTable}
    {emission : Emission} {frames : Array (Option Verify.Frame)} (sound : source.problems = [])
    (read : Header.ofListing source.listing (.ofListing source.listing) = .ok header)
    (concrete : header.isAbstract = false)
    (resolved : ExceptionRange.ofListing source.listing (.ofListing source.listing)
      (.ofListing source.listing) = .ok ranges)
    (allocated : (assembler.initialSlots header).allocate
      (SlotUse.ofListing source.listing (.ofListing source.listing)) = (slots, .ok ()))
    (emitted : Emission.ofListing ⟨.ofListing source.listing, slots, .ofListing source.listing⟩
      source.listing = .ok emission) (verifies : assembler.config.verify = true)
    (accepted : assembler.verifier.analyze (assembler.assemble header ranges slots emission) = .ok frames) :
    assembler.compile source = .ok {
      method := { assembler.assemble header ranges slots emission with
        variableTable := if assembler.config.variableTable then
          some ((slots.inferRanges frames.toList).localVariables emission.instructions.toList) else none }
      frames := some frames
      compilation := some ⟨⟨.ofListing source.listing, slots.inferRanges frames.toList,
        .ofListing source.listing⟩, emission.origins⟩ } := by
  unfold compile
  rw [sound]
  refine except_bind_ok.mpr ⟨header, read, ?_⟩
  rw [if_neg (by simp [concrete])]
  unfold compileCode
  refine except_bind_ok.mpr ⟨ranges, resolved, ?_⟩
  rw [allocated]
  refine except_bind_ok.mpr ⟨(), rfl, except_bind_ok.mpr ⟨emission, emitted, ?_⟩⟩
  simp only [verifies, if_true]
  exact except_bind_ok.mpr ⟨(frames, _), except_bind_ok.mpr ⟨frames, mapError_ok.mpr accepted, rfl⟩, rfl⟩

/-- The stages of a compilation up to the verification, all of them passed. -/
structure Prepared (assembler : Assembler) (listing : Listing) (header : Header) (ranges : List ExceptionRange)
    (slots : SlotTable) (emission : Emission) : Prop where
  read : Header.ofListing listing (.ofListing listing) = .ok header
  concrete : header.isAbstract = false
  resolved : ExceptionRange.ofListing listing (.ofListing listing) (.ofListing listing) = .ok ranges
  allocated : (assembler.initialSlots header).allocate (SlotUse.ofListing listing (.ofListing listing)) =
    (slots, .ok ())
  emitted : Emission.ofListing ⟨.ofListing listing, slots, .ofListing listing⟩ listing = .ok emission

/-- The stage that a compilation stops at. -/
inductive Stops (assembler : Assembler) (listing : Listing) : CompileError → Prop where
  | header {failure} (failed : Header.ofListing listing (.ofListing listing) = .error failure) :
    Stops assembler listing failure
  | ranges {failure}
    (failed : ExceptionRange.ofListing listing (.ofListing listing) (.ofListing listing) = .error failure) :
    Stops assembler listing failure
  | slots {header slots failure} (read : Header.ofListing listing (.ofListing listing) = .ok header)
    (failed : (assembler.initialSlots header).allocate
      (SlotUse.ofListing listing (.ofListing listing)) = (slots, .error failure)) :
    Stops assembler listing failure
  | code {header slots failure} (read : Header.ofListing listing (.ofListing listing) = .ok header)
    (allocated : (assembler.initialSlots header).allocate (SlotUse.ofListing listing (.ofListing listing)) =
      (slots, .ok ()))
    (failed : Emission.ofListing ⟨.ofListing listing, slots, .ofListing listing⟩ listing = .error failure) :
    Stops assembler listing failure
  | verification {header ranges slots emission rejection}
    (prepared : assembler.Prepared listing header ranges slots emission)
    (refused : assembler.verifier.analyze (assembler.assemble header ranges slots emission) = .error rejection) :
    Stops assembler listing
      (rejected (assembler.assemble header ranges slots emission) emission.origins rejection)

/-- A compilation that fails was not sound to begin with or stops at one of its stages. -/
theorem compile_error {failure : CompileError} (failed : assembler.compile source = .error failure) :
    (∃ first rest, source.problems = first :: rest ∧ failure = .problems first rest) ∨
      source.problems = [] ∧ assembler.Stops source.listing failure := by
  obtain ⟨listing, problems⟩ := source
  cases problems with
  | cons first rest =>
    cases failed
    exact .inl ⟨first, rest, rfl, rfl⟩
  | nil =>
    refine .inr ⟨rfl, ?_⟩
    rw [compile_eq] at failed
    rcases except_bind_error.mp failed with unread | ⟨header, read, failed⟩
    · exact .header unread
    split at failed
    next => cases failed
    next concrete =>
      rw [compileCode_eq] at failed
      rcases except_bind_error.mp failed with unresolved | ⟨ranges, resolved, failed⟩
      · exact .ranges unresolved
      cases taken : (assembler.initialSlots header).allocate (SlotUse.ofListing listing (.ofListing listing)) with
      | mk slots outcome =>
      rw [taken] at failed
      rcases except_bind_error.mp failed with unallocated | ⟨⟨⟩, done, failed⟩
      · rw [show outcome = .error failure from unallocated] at taken
        exact .slots read taken
      rw [show outcome = .ok () from done] at taken
      rcases except_bind_error.mp failed with unemitted | ⟨emission, emitted, failed⟩
      · exact .code read taken unemitted
      unfold conclude at failed
      split at failed
      next =>
        obtain ⟨rejection, rejects, rfl⟩ := mapError_error.mp (map_error.mp failed)
        exact .verification ⟨read, by simpa using concrete, resolved, taken, emitted⟩ rejects
      next => cases failed

end Assembler
end Bytecode
