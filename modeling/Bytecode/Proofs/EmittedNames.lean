import Bytecode.Proofs.TypeNames
import Bytecode.Proofs.UncheckedCompilation
import Bytecode.Proofs.WellFormedCode

/-! The names of types that an assembled method carries besides its code: those of what it catches and throws,
and the descriptors of its variable table. -/

namespace Bytecode
open Verify (except_bind_ok mapM_ok_iff mapError_ok map_ok Frame Value Holds)

theorem Scope.type_ok {scope : Scope} {name type : String} (checked : scope.type name = .ok type) :
    NamesType type := by
  obtain ⟨denoted, parsed, same⟩ := except_bind_ok.mp checked
  cases same
  exact ⟨denoted, mapError_ok.mp parsed⟩

/-- The names in a record have been checked. -/
theorem Operation.compile_checked {scope : Scope} {operation : Operation} {instruction : Instruction}
    (compiled : operation.compile scope = .ok instruction) : instruction.Checked := by
  obtain ⟨_, compiles⟩ := compile_ok.mp compiled
  cases compiles with
  | type checked => exact Scope.type_ok checked
  | @newArrays descriptor dimensions type parsed some within =>
    obtain ⟨formed, same⟩ := FieldType.parse_iff.mp parsed
    rw [Instruction.Checked, same]
    cases type with
    | array element => exact formed.namesType_array
    | _ =>
      have none : dimensions.toNat = 0 := Nat.le_zero.mp within
      exact absurd (UInt8.toNat_inj.mp none) some
  | _ => trivial

theorem Emission.checked {tables : Tables} {listing : Listing} {emission : Emission}
    (emitted : ofListing tables listing = .ok emission) :
    ∀ instruction ∈ emission.instructions, instruction.Checked := by
  intro instruction listed
  obtain ⟨index, stands⟩ := Array.mem_iff_getElem?.mp listed
  obtain ⟨origin, _, emits⟩ := (traced_ofListing emitted).emits index instruction stands
  cases emits with
  | label => trivial
  | operation _ compiled => exact Operation.compile_checked compiled

theorem ExceptionRange.ofTryCatch_caught {labels : LabelTable} {aliases : Aliases} {line : Nat} {written : TryCatch}
    {range : ExceptionRange} (resolved : ofTryCatch labels aliases line written = .ok range) :
    range.caught = written.caught.map aliases.resolve := by
  unfold ofTryCatch at resolved
  extract_lets resolve at resolved
  obtain ⟨_, _, resolved⟩ := except_bind_ok.mp resolved
  obtain ⟨_, _, resolved⟩ := except_bind_ok.mp resolved
  obtain ⟨_, _, same⟩ := except_bind_ok.mp resolved
  cases same
  rfl

/-- The ranges of a method catch what is written, with aliases resolved and not looked at any further. -/
theorem ExceptionRange.ofListing_caught {listing : Listing} {labels : LabelTable} {aliases : Aliases}
    {ranges : List ExceptionRange} (resolved : ofListing listing labels aliases = .ok ranges) :
    (∀ range ∈ ranges, ∀ name ∈ range.caught, NamesType name) ↔
      ∀ entry ∈ listing.tryCatches, ∀ name ∈ entry.2.caught, NamesType (aliases.resolve name) := by
  have each := mapM_ok_iff.mp resolved
  constructor
  · intro named entry listed name written
    obtain ⟨range, among, found⟩ := forall₂_mem_right each.flip listed
    apply named range among
    rw [ofTryCatch_caught found, Option.mem_def.mp written]
    rfl
  · intro named range listed name caught
    obtain ⟨entry, among, found⟩ := forall₂_mem_right each listed
    rw [ofTryCatch_caught found] at caught
    obtain ⟨written, known, rfl⟩ := Option.map_eq_some_iff.mp caught
    exact named entry among written known

theorem Header.ofListing_exceptions {listing : Listing} {aliases : Aliases} {header : Header}
    (read : ofListing listing aliases = .ok header) :
    header.exceptions = listing.throws.map fun entry => aliases.resolve entry.2 := by
  unfold ofListing at read
  cases found : listing.definition? with
  | none =>
    rw [found] at read
    cases read
  | some definition =>
    rw [found] at read
    obtain ⟨_, _, read⟩ := except_bind_ok.mp read
    obtain ⟨_, _, same⟩ := except_bind_ok.mp read
    cases same
    rfl

namespace SlotTable
variable {table : SlotTable} {entry : Variable}

theorem mem_ofMethod {isStatic : Bool} {declaringType : String}
    (listed : entry ∈ (ofMethod isStatic declaringType).entries) :
    entry.descriptor = some (nameDescriptor declaringType) := by
  cases isStatic with
  | true => cases Array.not_mem_empty _ listed
  | false =>
    rcases Array.mem_push.mp listed with none | rfl
    · cases Array.not_mem_empty _ none
    · rfl

theorem mem_addBaseline {baseline : List BaselineVariable} (listed : entry ∈ (table.addBaseline baseline).entries) :
    entry ∈ table.entries ∨ ∃ known ∈ baseline, entry.descriptor = some known.descriptor := by
  unfold addBaseline at listed
  induction baseline generalizing table with
  | nil => exact .inl listed
  | cons known rest ih =>
    rcases ih listed with here | ⟨other, among, same⟩
    · unfold addKnown at here
      extract_lets width at here
      split at here
      · exact .inl here
      · split at here
        · exact .inl here
        · rcases Array.mem_push.mp here with old | rfl
          · exact .inl old
          · exact .inr ⟨known, List.mem_cons_self, rfl⟩
    · exact .inr ⟨other, List.mem_cons_of_mem _ among, same⟩

theorem mem_addParametersFrom {next : UInt16} {parameters : List Parameter}
    (listed : entry ∈ (table.addParametersFrom next parameters).entries) :
    entry ∈ table.entries ∨ ∃ parameter ∈ parameters, entry.descriptor = some parameter.descriptor := by
  induction parameters generalizing table next with
  | nil => exact .inl listed
  | cons parameter rest ih =>
    rw [addParametersFrom] at listed
    split at listed
    · exact .inl listed
    · rcases ih listed with here | ⟨other, among, same⟩
      · split at here
        · exact .inl here
        · rcases Array.mem_push.mp here with old | rfl
          · exact .inl old
          · exact .inr ⟨parameter, List.mem_cons_self, rfl⟩
      · exact .inr ⟨other, List.mem_cons_of_mem _ among, same⟩

/-- The type in a row is declared or inferred. -/
theorem localVariable?_descriptor {labels : List PlacedLabel} {row : LocalVariable}
    (found : table.localVariable? labels entry = some row) : entry.descriptor = some row.descriptor ∨
      entry.descriptor = none ∧ ∃ range, table.live[entry.name]? = some range ∧ row.descriptor = range.descriptor := by
  obtain ⟨_, _, found⟩ := Option.bind_eq_some_iff.mp found
  obtain ⟨_, _, found⟩ := Option.bind_eq_some_iff.mp found
  split at found
  next typed =>
    cases found
    exact .inl typed
  next untyped =>
    obtain ⟨range, live, found⟩ := Option.bind_eq_some_iff.mp found
    obtain ⟨_, _, found⟩ := Option.bind_eq_some_iff.mp found
    cases found
    exact .inr ⟨untyped, range, live, rfl⟩

end SlotTable

/-- An array type of one dimension too many, as an array of arrays of the most dimensions gets. -/
def Method.Overgrows (method : Method) (descriptor : String) : Prop :=
  ∃ operand type, .type .newRefArray operand ∈ method.instructions ∧ FieldType.ofOperand operand = .ok type ∧
    type.dimensions = FieldType.maxDimensions ∧ descriptor = "[" ++ nameDescriptor operand

/-- All types that a method names besides its code are written as types are. -/
structure Method.NamesTypes (method : Method) : Prop where
  caught : ∀ range ∈ method.ranges, ∀ name ∈ range.caught, NamesType name
  thrown : ∀ name ∈ method.exceptions, NamesType name
  rows : ∀ rows, method.variableTable = some rows → ∀ row ∈ rows, DenotesType row.descriptor

theorem Method.Overgrows.refused {method : Method} {descriptor : String} (overgrows : method.Overgrows descriptor) :
    ¬ DenotesType descriptor := by
  obtain ⟨operand, type, _, named, deep, rfl⟩ := overgrows
  rw [FieldType.denotesType_array named, deep]
  exact Nat.lt_irrefl _

/-- A descriptor that a variable can get denotes a type unless an array has outgrown its dimensions. -/
theorem Method.Admits.denotesType {method : Method} {descriptor : String} (admits : method.Admits descriptor)
    (checked : ∀ instruction ∈ method.instructions, instruction.Checked) :
    DenotesType descriptor ∨ method.Overgrows descriptor := by
  rcases admits with denotes | ⟨_, listed, operand, rfl, rfl⟩
  · exact .inl denotes
  · obtain ⟨type, named⟩ : NamesType operand := checked _ listed
    rw [FieldType.denotesType_array named]
    rcases Nat.lt_or_ge type.dimensions FieldType.maxDimensions with room | deep
    · exact .inl room
    · have bounded := (FieldType.parse_iff.mp (FieldType.ofOperand_iff.mp named)).1.bounded
      exact .inr ⟨operand, type, listed, named, Nat.le_antisymm bounded deep, rfl⟩

namespace Assembler
variable {assembler : Assembler} {source : ReadListing} {assembly : Assembly} {header : Header}
  {ranges : List ExceptionRange} {slots : SlotTable} {emission : Emission}

/-- The stages that a method has come through. -/
theorem compile_prepared (compiled : assembler.compile source = .ok assembly) : ∃ header,
    Header.ofListing source.listing (.ofListing source.listing) = .ok header ∧
      (header.isAbstract = true ∧ assembly.method = .ofHeader header ∨
        ∃ ranges slots emission inferred, assembler.Prepared source.listing header ranges slots emission ∧
          assembly.method = assembler.withTable (assembler.assemble header ranges slots emission) inferred ∧
          (inferred = slots ∨ ∃ frames,
            assembler.verifier.analyze (assembler.assemble header ranges slots emission) = .ok frames ∧
              inferred = slots.inferRanges frames.toList)) := by
  obtain ⟨listing, problems⟩ := source
  cases problems with
  | cons problem rest => cases compiled
  | nil =>
    rw [compile_eq] at compiled
    obtain ⟨header, read, compiled⟩ := except_bind_ok.mp compiled
    refine ⟨header, read, ?_⟩
    split at compiled
    next bare =>
      cases compiled
      exact .inl ⟨bare, rfl⟩
    next concrete =>
      rw [compileCode_eq] at compiled
      obtain ⟨ranges, resolved, compiled⟩ := except_bind_ok.mp compiled
      cases taken : (assembler.initialSlots header).allocate (SlotUse.ofListing listing (.ofListing listing)) with
      | mk slots outcome =>
      rw [taken] at compiled
      obtain ⟨⟨⟩, done, compiled⟩ := except_bind_ok.mp compiled
      rw [show outcome = .ok () from done] at taken
      obtain ⟨emission, emitted, compiled⟩ := except_bind_ok.mp compiled
      have prepared : assembler.Prepared listing header ranges slots emission :=
        ⟨read, by simpa using concrete, resolved, taken, emitted⟩
      unfold conclude at compiled
      simp only at compiled
      split at compiled
      next =>
        obtain ⟨frames, accepted, rfl⟩ := map_ok.mp compiled
        exact .inr ⟨ranges, slots, emission, _, prepared, rfl, .inr ⟨frames, mapError_ok.mp accepted, rfl⟩⟩
      next =>
        cases compiled
        exact .inr ⟨ranges, slots, emission, slots, prepared, rfl, .inl rfl⟩

/-- The declared types of the variables of a method have been checked with its definition, as far as those are
valid that are given. -/
theorem initialSlots_denote (own : NamesType assembler.declaringType)
    (known : ∀ given ∈ assembler.baseline, DenotesType given.descriptor)
    (read : Header.ofListing source.listing (.ofListing source.listing) = .ok header) {entry : Variable}
    (listed : entry ∈ (assembler.initialSlots header).entries) {descriptor : String}
    (typed : entry.descriptor = some descriptor) : DenotesType descriptor := by
  obtain ⟨_, _, type, _, _, _, denoted⟩ := Header.ofListing_types read
  have denotes {other : String} (same : entry.descriptor = some other) (valid : DenotesType other) :
      DenotesType descriptor := by
    cases typed.symm.trans same
    exact valid
  rcases SlotTable.mem_addParametersFrom listed with listed | ⟨parameter, among, same⟩
  · rcases SlotTable.mem_addBaseline listed with listed | ⟨given, among, same⟩
    · exact denotes (SlotTable.mem_ofMethod listed) (namesType_iff.mp own)
    · exact denotes same (known given among)
  · obtain ⟨type, _, parsed⟩ := forall₂_mem_right denoted.flip among
    exact denotes same ⟨type, parsed⟩

theorem Prepared.checked (prepared : assembler.Prepared source.listing header ranges slots emission)
    (caught : ∀ range ∈ ranges, ∀ name ∈ range.caught, NamesType name) :
    (assembler.assemble header ranges slots emission).Checked :=
  ⟨Emission.checked prepared.emitted, caught⟩

/-- Every row has a descriptor that is declared, or inferred from a value in a frame. -/
theorem Prepared.rows_admitted (prepared : assembler.Prepared source.listing header ranges slots emission)
    (own : NamesType assembler.declaringType)
    (known : ∀ given ∈ assembler.baseline, DenotesType given.descriptor)
    (caught : ∀ range ∈ ranges, ∀ name ∈ range.caught, NamesType name) {inferred : SlotTable}
    (observed : inferred = slots ∨ ∃ frames,
      assembler.verifier.analyze (assembler.assemble header ranges slots emission) = .ok frames ∧
        inferred = slots.inferRanges frames.toList)
    {row : LocalVariable} (listed : row ∈ inferred.localVariables emission.instructions.toList) :
    (assembler.assemble header ranges slots emission).Admits row.descriptor := by
  obtain ⟨entry, among, found⟩ := SlotTable.mem_localVariables.mp listed
  have among : entry ∈ slots.entries := by
    rcases observed with rfl | ⟨_, _, rfl⟩ <;> exact among
  rcases SlotTable.localVariable?_descriptor found with typed | ⟨untyped, range, live, same⟩
  · rcases prepared.registers.new (fun _ _ allowed => allowed.2) among with initial | untyped
    · exact .inl (initialSlots_denote own known prepared.read initial typed)
    · cases typed.symm.trans untyped
  · rw [same]
    rcases observed with rfl | ⟨frames, accepted, rfl⟩
    · rw [prepared.registers.live.trans (assembler.initialSlots_live header)] at live
      simp at live
    · rw [SlotTable.inferRanges_live prepared.sound among untyped] at live
      exact LiveRange.infer?_described (fun descriptor named =>
        .inl (Value.described_reference Value.namesType_object descriptor named))
        (fun _ => Verify.Verifier.frames_described accepted own (prepared.checked caught)) live

/-- What a successful compilation names is written as types are, provided that everything caught or thrown is and
that no array of references outgrows its dimensions. Neither is looked at. -/
theorem names_types_iff (compiled : assembler.compile source = .ok assembly)
    (own : isInternalName assembler.declaringType.toList = true)
    (known : ∀ given ∈ assembler.baseline, DenotesType given.descriptor) : assembly.method.NamesTypes ↔
      (assembly.method.access.isAbstract = false → ∀ entry ∈ source.listing.tryCatches, ∀ name ∈ entry.2.caught,
          NamesType ((Aliases.ofListing source.listing).resolve name)) ∧
        (∀ entry ∈ source.listing.throws, NamesType ((Aliases.ofListing source.listing).resolve entry.2)) ∧
        ∀ rows, assembly.method.variableTable = some rows →
          ∀ row ∈ rows, ¬ assembly.method.Overgrows row.descriptor := by
  obtain ⟨header, read, stages⟩ := compile_prepared compiled
  have thrown : (∀ name ∈ header.exceptions, NamesType name) ↔
      ∀ entry ∈ source.listing.throws, NamesType ((Aliases.ofListing source.listing).resolve entry.2) := by
    rw [Header.ofListing_exceptions read]
    exact List.forall_mem_map
  rw [← thrown]
  rcases stages with ⟨abstract, bare⟩ | ⟨ranges, slots, emission, inferred, prepared, made, observed⟩
  · rw [bare]
    constructor
    · exact fun named => ⟨fun concrete => absurd (abstract.symm.trans concrete) (by decide), named.thrown, nofun⟩
    · exact fun named => ⟨nofun, named.2.1, nofun⟩
  · have caught := ExceptionRange.ofListing_caught prepared.resolved
    rw [made]
    constructor
    · intro named
      exact ⟨fun _ => caught.mp named.caught, named.thrown, fun rows written row listed overgrows =>
        overgrows.refused (named.rows rows written row listed)⟩
    · rintro ⟨catches, throws, grown⟩
      have catching := caught.mpr (catches prepared.concrete)
      refine ⟨catching, throws, ?_⟩
      intro rows written row listed
      have table : row ∈ inferred.localVariables emission.instructions.toList := by
        simp only [withTable] at written
        split at written
        · cases written
          exact listed
        · cases written
      have admits := prepared.rows_admitted (.of_internalName own) known catching observed table
      rcases admits.denotesType (prepared.checked catching).instructions with denotes | overgrows
      · exact denotes
      · exact absurd overgrows (grown rows written row listed)

/-- Catches and declares what is thrown. -/
def guarded (caught thrown : String) : ReadListing :=
  ⟨⟨[⟨1, .definition ⟨[.accStatic], "n", [], "V"⟩⟩, ⟨2, .throws thrown⟩, ⟨3, .label "a"⟩,
    ⟨4, .operation (.simple .nop)⟩, ⟨5, .label "b"⟩, ⟨6, .operation (.simple .returnVoid)⟩, ⟨7, .label "c"⟩,
    ⟨8, .operation (.simple .pop)⟩, ⟨9, .operation (.simple .returnVoid)⟩,
    ⟨10, .tryCatch ⟨"a", "b", "c", some caught⟩⟩]⟩, []⟩

def guardedMethod (caught thrown : String) : Method where
  access := ⟨8⟩
  name := "n"
  descriptor := "()V"
  signature := none
  exceptions := [thrown]
  instructions := #[.label ⟨0⟩, .simple .nop, .label ⟨1⟩, .simple .returnVoid, .label ⟨2⟩, .simple .pop,
    .simple .returnVoid]
  ranges := [⟨⟨0⟩, ⟨1⟩, ⟨2⟩, some caught⟩]
  variableTable := some []
  maxStack := 255
  maxLocals := 0

/-- Knows of a variable before it assembles. -/
def recalling : Assembler := ⟨"Main", {}, SlotTable.countBaseline⟩

def guardedHeader : Header := ⟨⟨8⟩, "n", "()V", none, ["java/io/IOException"], [], 1⟩

def guardedEmission : Emission where
  instructions := (guardedMethod "java/lang/Exception" "java/io/IOException").instructions
  origins := ⟨#[⟨2, 3⟩, ⟨3, 4⟩, ⟨4, 5⟩, ⟨5, 6⟩, ⟨6, 7⟩, ⟨7, 8⟩, ⟨8, 9⟩]⟩
  placed := [(⟨2⟩, 7), (⟨1⟩, 5), (⟨0⟩, 3)]

def guardedFrames : Array (Option Frame) :=
  let locals := [.empty, .empty, .empty]
  let thrown := Value.reference "java/lang/Exception"
  #[some ⟨locals, []⟩, some ⟨locals, []⟩, some ⟨locals, []⟩, some ⟨locals, []⟩, some ⟨locals, [thrown]⟩,
    some ⟨locals, [thrown]⟩, some ⟨locals, []⟩]

def recalledSlots : SlotTable := (SlotTable.ofMethod true "Main").insert ⟨"count", 2, 1, some "I"⟩

theorem recalling_slots : recalling.initialSlots guardedHeader = recalledSlots := by
  have int : descriptorWidth "I" = 1 := by decide +kernel
  have static : guardedHeader.isStatic = true := rfl
  have bare : guardedHeader.parameters = [] := rfl
  simp [initialSlots, static, bare, recalling, recalledSlots, SlotTable.countBaseline, SlotTable.addBaseline,
    SlotTable.addKnown, SlotTable.addParameters, SlotTable.addParametersFrom, SlotTable.ofMethod, int,
    SlotTable.contains, SlotTable.insert, SlotTable.reserve, fitsSlots, slotLimit]

theorem guarded_prepared : recalling.Prepared (guarded "java/lang/Exception" "java/io/IOException").listing
    guardedHeader (guardedMethod "java/lang/Exception" "java/io/IOException").ranges recalledSlots guardedEmission := by
  rw [← recalling_slots]
  exact ⟨by decide +kernel, rfl, by decide +kernel, rfl, rfl⟩

theorem names_types_iff_guarded : ∃ assembly rows,
    recalling.compile (guarded "java/lang/Exception" "java/io/IOException") = .ok assembly ∧
      isInternalName recalling.declaringType.toList = true ∧
      (∀ given ∈ recalling.baseline, DenotesType given.descriptor) ∧
      assembly.method.exceptions = ["java/io/IOException"] ∧ assembly.method.variableTable = some rows ∧
      ⟨"count", 2, "I", ⟨0⟩, ⟨2⟩⟩ ∈ rows ∧ assembly.method.NamesTypes := by
  have prepared := guarded_prepared
  have accepted : recalling.verifier.analyze (recalling.assemble guardedHeader
      (guardedMethod "java/lang/Exception" "java/io/IOException").ranges recalledSlots guardedEmission) =
        .ok guardedFrames := by decide +kernel
  have compiled := compile_of_parts rfl prepared.read rfl prepared.resolved prepared.allocated prepared.emitted rfl
    accepted
  have own : isInternalName recalling.declaringType.toList = true := by decide +kernel
  have known : ∀ given ∈ recalling.baseline, DenotesType given.descriptor := by
    intro given listed
    obtain rfl : given = ⟨"count", 2, "I"⟩ := List.mem_singleton.mp listed
    exact ⟨.int, by decide +kernel⟩
  have exception : NamesType "java/lang/Exception" := .of_internalName (by decide +kernel)
  have failure : NamesType "java/io/IOException" := .of_internalName (by decide +kernel)
  refine ⟨_, _, compiled, own, known, rfl, rfl, ?count, (names_types_iff compiled own known).mpr ⟨?_, ?_, ?_⟩⟩
  case count =>
    have counted : (⟨"count", 2, 1, some "I"⟩ : Variable) ∈ (recalledSlots.inferRanges guardedFrames.toList).entries :=
      Array.mem_push_self
    exact SlotTable.mem_localVariables.mpr ⟨_, counted, rfl⟩
  · intro _ entry listed name written
    obtain rfl : entry = (10, ⟨"a", "b", "c", some "java/lang/Exception"⟩) := List.mem_singleton.mp listed
    cases written
    exact exception
  · intro entry listed
    obtain rfl : entry = (2, "java/io/IOException") := List.mem_singleton.mp listed
    exact failure
  · rintro rows _ row _ ⟨operand, _, written, _⟩
    simp [assemble, guardedEmission, guardedMethod] at written

/-- Names that are no names of types come out as they went in. -/
theorem guarded_misnamed : ∃ assembly,
    defaults.compile (guarded "java.lang.Exception" "java.io.IOException") = .ok assembly ∧
    isInternalName defaults.declaringType.toList = true ∧ defaults.baseline = [] ∧
    assembly.method = guardedMethod "java.lang.Exception" "java.io.IOException" ∧
    ¬ NamesType "java.lang.Exception" ∧ ¬ NamesType "java.io.IOException" ∧ ¬ assembly.method.NamesTypes := by
  have compiled : (defaults.compile (guarded "java.lang.Exception" "java.io.IOException")).map (·.method) =
    .ok (guardedMethod "java.lang.Exception" "java.io.IOException") := by decide +kernel
  obtain ⟨assembly, compiled, made⟩ := map_ok.mp compiled
  have refused {name : String} (bad : FieldType.ofOperand name = .error (.invalidName name)) : ¬ NamesType name := by
    rintro ⟨type, named⟩
    cases bad.symm.trans named
  have caught : ¬ NamesType "java.lang.Exception" := refused (by decide +kernel)
  refine ⟨assembly, compiled, by decide +kernel, rfl, made, caught, refused (by decide +kernel), fun named => ?_⟩
  rw [made] at named
  exact caught (named.caught _ List.mem_cons_self _ rfl)

/-- An array of that many dimensions. -/
def nested : Nat → FieldType
  | 0 => .int
  | depth + 1 => .array (nested depth)

theorem nested_dimensions (depth : Nat) : (nested depth).dimensions = depth := by
  induction depth with
  | zero => rfl
  | succ depth ih => exact congrArg (· + 1) ih

theorem nested_formed {depth : Nat} (within : depth ≤ FieldType.maxDimensions) : (nested depth).WellFormed := by
  have named : (nested depth).HasName := by
    clear within
    induction depth with
    | zero => exact trivial
    | succ depth ih => exact ih
  exact ⟨named, (nested_dimensions depth).trans_le within⟩

theorem nested_named {depth : Nat} (within : depth < FieldType.maxDimensions) :
    FieldType.ofOperand (nested (depth + 1)).descriptor = .ok (nested (depth + 1)) := by
  have written : nameDescriptor (nested (depth + 1)).descriptor = (nested (depth + 1)).descriptor := by
    simp [nested, nameDescriptor, FieldType.descriptor_array]
  rw [FieldType.ofOperand_iff, written]
  exact FieldType.parse_iff.mpr ⟨nested_formed within, rfl⟩

/-- The descriptor of an array of the most dimensions that there may be. -/
def deepest : String := (nested 255).descriptor

theorem deepest_named : FieldType.ofOperand deepest = .ok (nested 255) :=
  nested_named (by decide)

/-- Keeps an array of what is named in a variable. -/
def stacking (operand : String) : ReadListing :=
  ⟨⟨[⟨1, .definition ⟨[.accStatic], "n", [], "V"⟩⟩, ⟨2, .label "a"⟩, ⟨3, .operation (.simple .iconst0)⟩,
    ⟨4, .operation (.type .newRefArray operand)⟩, ⟨5, .operation (.variable .astore "i")⟩,
    ⟨6, .operation (.simple .nop)⟩, ⟨7, .label "b"⟩, ⟨8, .operation (.simple .returnVoid)⟩]⟩, []⟩

def stackingEmission (operand : String) : Emission where
  instructions := #[.label ⟨0⟩, .simple .iconst0, .type .newRefArray operand, .variable .astore 0,
    .simple .nop, .label ⟨1⟩, .simple .returnVoid]
  origins := ⟨#[⟨1, 2⟩, ⟨2, 3⟩, ⟨3, 4⟩, ⟨4, 5⟩, ⟨5, 6⟩, ⟨6, 7⟩, ⟨7, 8⟩]⟩
  placed := [(⟨1⟩, 7), (⟨0⟩, 2)]

theorem stacking_prepared {operand : String} (named : NamesType operand) :
    defaults.Prepared (stacking operand).listing (shortHeader 8) [] countingSlots (stackingEmission operand) := by
  have labels : LabelTable.ofListing (stacking operand).listing = ⟨[⟨"a", 2⟩, ⟨"b", 7⟩]⟩ := rfl
  have found (labels : LabelTable) (line : Nat) :
      (Tables.scope ⟨labels, countingSlots, ⟨[]⟩⟩ line).slot "i" = .ok 0 := counter_slot line
  have made (labels : LabelTable) (line : Nat) :
      (Tables.scope ⟨labels, countingSlots, ⟨[]⟩⟩ line).type operand = .ok operand := by
    obtain ⟨type, named⟩ := named
    have resolved : (Tables.scope ⟨labels, countingSlots, ⟨[]⟩⟩ line).resolve operand = operand := rfl
    rw [Scope.type, resolved, named]
    rfl
  refine ⟨?read, rfl, rfl, defaults_allocate 5, ?emitted⟩
  case read =>
    have same : Header.ofListing (stacking operand).listing (.ofListing (stacking operand).listing) =
      Header.ofListing idle.listing (.ofListing idle.listing) := rfl
    rw [same]
    decide +kernel
  case emitted =>
    have stores : Opcode.operands .astore = .slot := rfl
    have constant : Opcode.operands .iconst0 = .none := rfl
    have arrays : Opcode.operands .newRefArray = .type := rfl
    have idles : Opcode.operands .nop = .none := rfl
    have returns : Opcode.operands .returnVoid = .none := rfl
    have apart : ((⟨1⟩ : Label) == ⟨0⟩) = false := rfl
    have aliases : Aliases.ofListing (stacking operand).listing = ⟨[]⟩ := rfl
    rw [aliases, labels]
    simp [Emission.ofListing, stacking, Emission.step, Emission.place, LabelTable.get?, List.findIdx?_cons,
      Operation.compile, Scope.checkShape, Operation.shape?, stores, constant, arrays, idles, returns, found, made,
      apart, Emission.push, Emission.empty, List.lookup_cons, bind, Except.bind, pure, Except.pure, stackingEmission]

theorem stacking_live : ((defaults.verifier.analyze (defaults.assemble (shortHeader 8) [] countingSlots
    (stackingEmission deepest))).map fun frames => LiveRange.infer? frames.toList counter.index.toNat) =
      .ok (some ⟨4, 6, "[" ++ nameDescriptor deepest⟩) := by
  decide +kernel

/-- Accepted code can outgrow the dimensions: the variable that holds the array gets one too many. -/
theorem stacking_outgrows : ∃ assembly rows, defaults.compile (stacking deepest) = .ok assembly ∧
    assembly.method.variableTable = some rows ∧ ∃ row ∈ rows, assembly.method.Overgrows row.descriptor := by
  have prepared := stacking_prepared ⟨_, deepest_named⟩
  obtain ⟨frames, accepted, live⟩ := map_ok.mp stacking_live
  have compiled := compile_of_parts rfl prepared.read rfl rfl prepared.allocated prepared.emitted rfl accepted
  have counted : counter ∈ countingSlots.entries := Array.mem_push_self
  have noted : (countingSlots.inferRanges frames.toList).live["i"]? = some ⟨4, 6, "[" ++ nameDescriptor deepest⟩ :=
    (SlotTable.inferRanges_live prepared.sound counted rfl).trans live
  have labels : placedLabels (stackingEmission deepest).instructions.toList = [⟨0, ⟨0⟩⟩, ⟨5, ⟨1⟩⟩] := rfl
  refine ⟨_, _, compiled, rfl, ⟨"i", 0, _, ⟨0⟩, ⟨1⟩⟩, SlotTable.mem_localVariables.mpr ⟨counter, counted, ?_⟩,
    deepest, nested 255, ?_, deepest_named, nested_dimensions 255, rfl⟩
  · simp [SlotTable.localVariable?, labels, noted, counter, LiveRange.bounds?]
  · simp [Assembler.assemble, stackingEmission]

end Assembler
end Bytecode
