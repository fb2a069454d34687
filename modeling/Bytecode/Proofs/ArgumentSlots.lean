import Bytecode.Proofs.DescriptorText
import Bytecode.Proofs.SlotAccess

/-! Where arguments live. Parameters are laid out twice, by the table of slots from the statements of the
definition and by the first frame from the descriptor that was made of them, and both put them in the same
places. -/

namespace Bytecode
open Verify (except_bind_ok mapM_ok_iff mapError_ok stackHeight Frame Value)

/-- A parameter is declared with the descriptor of a type. -/
def Parameter.Denotes (parameter : Parameter) (type : FieldType) : Prop :=
  FieldType.parse parameter.descriptor = .ok type

/-- Slots that values of some types take together. -/
def FieldType.totalSize : List FieldType → Nat
  | [] => 0
  | type :: rest => type.size + totalSize rest

theorem Parameter.Denotes.width {parameter : Parameter} {type : FieldType} (denotes : parameter.Denotes type) :
    (descriptorWidth parameter.descriptor).toNat = type.size := by
  unfold Denotes at denotes
  rw [descriptorWidth, denotes]
  cases type <;> rfl

section
variable {parameters : List Parameter} {types : List FieldType}

theorem Parameter.Denotes.descriptors (denoted : List.Forall₂ Parameter.Denotes parameters types) :
    parameters.map (·.descriptor) = types.map FieldType.descriptor := by
  induction denoted with
  | nil => rfl
  | cons first _ ih => rw [List.map_cons, List.map_cons, ih, (FieldType.parse_iff.mp first).2]

theorem Parameter.Denotes.getElem? (denoted : List.Forall₂ Parameter.Denotes parameters types) {index : Nat}
    {parameter : Parameter} (listed : parameters[index]? = some parameter) : ∃ type, types[index]? = some type := by
  obtain ⟨inside, _⟩ := List.getElem?_eq_some_iff.mp listed
  rw [denoted.length_eq] at inside
  exact ⟨_, List.getElem?_eq_getElem inside⟩

theorem Parameter.Denotes.wellFormed (denoted : List.Forall₂ Parameter.Denotes parameters types) :
    ∀ type ∈ types, type.WellFormed := by
  induction denoted with
  | nil => exact fun _ listed => absurd listed List.not_mem_nil
  | cons first _ ih => exact List.forall_mem_cons.mpr ⟨(FieldType.parse_iff.mp first).1, ih⟩

end

namespace MethodType

/-- The parameters of a method with types for parameters are those types. -/
theorem parse_parameters {types : List FieldType} {result : String} {type : MethodType}
    (formed : ∀ type ∈ types, type.WellFormed)
    (parsed : parse ("(" ++ String.join (types.map FieldType.descriptor) ++ ")" ++ result) = .ok type) :
    type.parameters = types := by
  have text : ("(" ++ String.join (types.map FieldType.descriptor) ++ ")" ++ result).toList =
      '(' :: (types.flatMap (·.descriptor.toList) ++ ')' :: result.toList) := by
    simp [String.toList_join, List.flatMap_map]
  obtain ⟨known, same⟩ := parse_iff.mp parsed
  have read := readParameters_descriptors known.parameters (resultDescriptor type.result).toList
  rw [same, descriptor_toList, List.cons_inj_right] at text
  rw [text, readParameters_descriptors formed] at read
  exact (congrArg Prod.fst (Option.some.inj read)).symm

end MethodType

namespace Header

/-- A header has the parameters of the first definition, and its descriptor denotes their types. -/
theorem ofListing_types {listing : Listing} {aliases : Aliases} {header : Header}
    (read : ofListing listing aliases = .ok header) : ∃ line definition type,
      listing.definition? = some (line, definition) ∧
        header.parameters = definition.parameters.map (fun parameter =>
          { parameter with descriptor := aliases.resolve parameter.descriptor }) ∧
        MethodType.parse header.descriptor = .ok type ∧
        List.Forall₂ Parameter.Denotes header.parameters type.parameters := by
  unfold ofListing at read
  cases found : listing.definition? with
  | none =>
    rw [found] at read
    cases read
  | some pair =>
    obtain ⟨line, definition⟩ := pair
    rw [found] at read
    obtain ⟨types, checked, read⟩ := except_bind_ok.mp read
    obtain ⟨type, parsed, same⟩ := except_bind_ok.mp read
    cases same
    have parsed := mapError_ok.mp parsed
    have denoted := (mapM_ok_iff.mp checked).imp fun _ _ valid => mapError_ok.mp valid
    refine ⟨line, definition, type, rfl, rfl, parsed, ?_⟩
    have descriptors := Parameter.Denotes.descriptors denoted
    rw [descriptors] at parsed
    rwa [MethodType.parse_parameters (Parameter.Denotes.wellFormed denoted) parsed]

end Header

namespace Verify

namespace Value

/-- The slots of a value. Only the first of them can be used. -/
def cells (value : Value) : List Value := value :: List.replicate (value.size - 1) .empty

theorem cells_length (value : Value) : value.cells.length = value.size := by
  cases value <;> rfl

theorem size_ofType (type : FieldType) : (ofType type).size = type.size := by
  cases type <;> rfl

theorem stackHeight_ofType (types : List FieldType) :
    stackHeight (types.map ofType) = FieldType.totalSize types := by
  induction types with
  | nil => rfl
  | cons type rest ih => rw [List.map_cons, stackHeight, size_ofType, ih, FieldType.totalSize]

/-- A value stands in the slot after those of the values before it. -/
theorem getElem?_cells {values : List Value} {index : Nat} {value : Value} (listed : values[index]? = some value)
    (rest : List Value) : (values.flatMap cells ++ rest)[stackHeight (values.take index)]? = some value := by
  induction values generalizing index with
  | nil => cases listed
  | cons first values ih =>
    cases index with
    | zero =>
      cases listed
      rfl
    | succ index =>
      have later : (values.flatMap cells ++ rest)[stackHeight (values.take index)]? = some value := ih listed
      have start : stackHeight ((first :: values).take (index + 1)) =
          first.cells.length + stackHeight (values.take index) := by
        rw [List.take_succ_cons, stackHeight, cells_length]
      rw [start, List.flatMap_cons, List.append_assoc, List.getElem?_append_right (Nat.le_add_right _ _),
        Nat.add_sub_cancel_left, later]

end Value

/-- Arguments that fit are laid out one behind another. -/
theorem placeArguments_of_fits {count : Nat} (slot : Nat) (values : List Value)
    (fits : slot + stackHeight values ≤ count) : placeArguments count slot values =
      .ok (values.flatMap Value.cells ++ List.replicate (count - slot - stackHeight values) .empty) := by
  induction values generalizing slot with
  | nil => rfl
  | cons value rest ih =>
    have total : stackHeight (value :: rest) = value.size + stackHeight rest := rfl
    have later := ih (slot + value.size) (by omega)
    have left : count - (slot + value.size) - stackHeight rest =
        count - slot - stackHeight (value :: rest) := by
      omega
    rw [placeArguments, if_pos (by omega), later, left, List.flatMap_cons, List.append_assoc]
    rfl

end Verify

namespace SlotTable
variable {table : SlotTable} {name : String}

theorem contains_insert (table : SlotTable) (entry : Variable) (name : String) :
    (table.insert entry).contains name = (entry.name == name || table.contains name) :=
  Std.HashMap.contains_insert

theorem Registers.isStatic {allows : SlotTable → Variable → Prop} {before after : SlotTable}
    (grown : Registers allows before after) : after.isStatic = before.isStatic := by
  induction grown with
  | refl => rfl
  | reserve _ _ ih => exact ih
  | insert _ _ _ _ _ ih => exact ih

/-- Besides the receiver only the baseline has names before the parameters. -/
theorem contains_ofBaseline {isStatic : Bool} (declaringType : String) {baseline : List BaselineVariable}
    (apart : isStatic = true ∨ name ≠ "this") (unknown : ∀ known ∈ baseline, known.name ≠ name) :
    (ofBaseline isStatic declaringType baseline).contains name = false := by
  have start : (ofMethod isStatic declaringType).contains name = false := by
    cases isStatic with
    | true => simp [ofMethod, contains]
    | false =>
      have other := apart.resolve_left Bool.false_ne_true
      have empty : (⟨false, #[], {}, {}, 0, {}⟩ : SlotTable).contains name = false := by simp [contains]
      exact (contains_insert _ _ name).trans (by simp [empty, other.symm])
  unfold ofBaseline addBaseline
  generalize ofMethod isStatic declaringType = table at start
  induction baseline generalizing table with
  | nil => exact start
  | cons known rest ih =>
    obtain ⟨different, unknown⟩ := List.forall_mem_cons.mp unknown
    refine ih unknown _ ?_
    unfold addKnown
    extract_lets width
    split
    next => exact start
    next =>
      split
      next => exact start
      next => simp [contains_insert, different, start]

/-- The table with the slots of one parameter. -/
def addParameter (table : SlotTable) (next : UInt16) (parameter : Parameter) : SlotTable :=
  if table.contains parameter.name then table.reserve next (descriptorWidth parameter.descriptor)
  else table.insert ⟨parameter.name, next, descriptorWidth parameter.descriptor, some parameter.descriptor⟩

theorem high_addParameter {next : UInt16} {parameter : Parameter}
    (fits : fitsSlots next (descriptorWidth parameter.descriptor) = true) :
    (table.addParameter next parameter).high.toNat =
      max table.high.toNat (next.toNat + (descriptorWidth parameter.descriptor).toNat) := by
  unfold addParameter
  split
  next => exact high_reserve fits
  next => exact high_reserve fits

theorem mem_addParameter {parameter : Parameter} (fresh : table.contains parameter.name = false) (next : UInt16) :
    ⟨parameter.name, next, descriptorWidth parameter.descriptor, some parameter.descriptor⟩ ∈
      (table.addParameter next parameter).entries := by
  rw [addParameter, fresh]
  exact Array.mem_push_self

theorem contains_addParameter {next : UInt16} {parameter : Parameter} (different : parameter.name ≠ name) :
    (table.addParameter next parameter).contains name = table.contains name := by
  unfold addParameter
  split
  next => rfl
  next => simp [contains_insert, different]

section
variable {parameters : List Parameter} {types : List FieldType} {next : UInt16}

theorem addParametersFrom_cons (table : SlotTable) (next : UInt16) {parameter : Parameter} {type : FieldType}
    (denotes : parameter.Denotes type) (room : next.toNat + type.size ≤ slotLimit)
    (rest : List Parameter) :
    fitsSlots next (descriptorWidth parameter.descriptor) = true ∧
      (next + descriptorWidth parameter.descriptor).toNat = next.toNat + type.size ∧
      table.addParametersFrom next (parameter :: rest) =
        (table.addParameter next parameter).addParametersFrom (next + descriptorWidth parameter.descriptor) rest := by
  have width := denotes.width
  have fits : fitsSlots next (descriptorWidth parameter.descriptor) = true := fitsSlots_iff.mpr (by omega)
  refine ⟨fits, by rw [next_toNat fits, width], ?_⟩
  rw [addParametersFrom, fits]
  rfl

variable (denoted : List.Forall₂ Parameter.Denotes parameters types)
  (room : next.toNat + FieldType.totalSize types ≤ slotLimit)
include denoted room

/-- The high-water mark rises above parameters that fit. -/
theorem addParametersFrom_high (start : next.toNat ≤ table.high.toNat) :
    next.toNat + FieldType.totalSize types ≤ (table.addParametersFrom next parameters).high.toNat := by
  induction denoted generalizing table next with
  | nil => exact start
  | @cons parameter type parameters types denotes _ ih =>
    have total : FieldType.totalSize (type :: types) = type.size + FieldType.totalSize types := rfl
    obtain ⟨fits, after, same⟩ := addParametersFrom_cons table next denotes (by omega) parameters
    have raised : (table.addParameter next parameter).high.toNat = _ := high_addParameter fits
    have width := denotes.width
    have later := @ih (table.addParameter next parameter) (next + descriptorWidth parameter.descriptor)
      (by omega) (by omega)
    rw [same]
    omega

/-- A parameter that fits and is the only variable of its name has the slots after those of the parameters
before it. -/
theorem addParametersFrom_entry {index : Nat} {parameter : Parameter} (listed : parameters[index]? = some parameter)
    (fresh : table.contains parameter.name = false) (once : (parameters.map (·.name)).count parameter.name = 1) :
    ∃ entry ∈ (table.addParametersFrom next parameters).entries, entry.name = parameter.name ∧
      entry.index.toNat = next.toNat + FieldType.totalSize (types.take index) := by
  induction denoted generalizing table next index with
  | nil => cases listed
  | @cons first type parameters types denotes _ ih =>
    have total : FieldType.totalSize (type :: types) = type.size + FieldType.totalSize types := rfl
    obtain ⟨fits, after, same⟩ := addParametersFrom_cons table next denotes (by omega) parameters
    rw [same]
    cases index with
    | zero =>
      cases listed
      exact ⟨_, (addParametersFrom_registers _ _ _).kept (mem_addParameter fresh next), rfl, rfl⟩
    | succ index =>
      have among : parameters[index]? = some parameter := listed
      have again : 0 < (parameters.map (·.name)).count parameter.name :=
        List.count_pos_iff.mpr (List.mem_map_of_mem (List.mem_of_getElem? among))
      rw [List.map_cons, List.count_cons] at once
      have different : first.name ≠ parameter.name := by
        intro equal
        rw [if_pos (beq_iff_eq.mpr equal)] at once
        omega
      have unknown : (table.addParameter next first).contains parameter.name = false :=
        (contains_addParameter different).trans fresh
      have left : (next + descriptorWidth first.descriptor).toNat + FieldType.totalSize types ≤ slotLimit := by omega
      obtain ⟨entry, known, named, start⟩ := ih left among unknown (by omega)
      refine ⟨entry, known, named, start.trans ?_⟩
      have taken : FieldType.totalSize ((type :: types).take (index + 1)) =
        type.size + FieldType.totalSize (types.take index) := rfl
      omega

end

/-- What an instance method knows its receiver as. -/
def receiver (declaringType : String) : Variable := ⟨"this", 0, 1, some (nameDescriptor declaringType)⟩

theorem mem_ofBaseline_receiver (declaringType : String) (baseline : List BaselineVariable) :
    receiver declaringType ∈ (ofBaseline false declaringType baseline).entries :=
  (addBaseline_registers _ baseline).kept Array.mem_push_self

theorem slot_of_mem (sound : table.Sound) {entry : Variable} (listed : entry ∈ table.entries)
    (symbolic : slotNumber? entry.name = none) (line : Nat) : table.slot entry.name line = .ok entry.index := by
  have known := (sound.known entry.name entry).mpr ⟨listed, rfl⟩
  rw [slot, symbolic, known]

end SlotTable

/-- The slot after the receiver. -/
def Header.firstSlot (header : Header) : UInt16 := if header.isStatic then 0 else 1

namespace Assembler
variable {assembler : Assembler} {listing : Listing} {header : Header} {ranges : List ExceptionRange}
  {slots : SlotTable} {emission : Emission} {type : MethodType}

/-- The receiver as the first frame knows it. -/
def receiver (assembler : Assembler) (header : Header) : Value :=
  if header.name == Verify.Step.constructorName then .uninitializedThis assembler.declaringType
  else .reference assembler.declaringType

/-- What a method is called with. -/
def arguments (assembler : Assembler) (header : Header) (type : MethodType) : List Value :=
  (if header.isStatic then [] else [assembler.receiver header]) ++ type.parameters.map Value.ofType

/-- A name means one parameter and nothing else. -/
structure Identifies (assembler : Assembler) (header : Header) (name : String) : Prop where
  once : (header.parameters.map (·.name)).count name = 1
  receiver : header.isStatic = true ∨ name ≠ "this"
  baseline : ∀ known ∈ assembler.baseline, known.name ≠ name
  symbolic : slotNumber? name = none

/-- The slots of the arguments hold them in the first frame. -/
structure Agrees (assembler : Assembler) (header : Header) (type : MethodType) (slots : SlotTable) (frame : Frame) :
    Prop where
  layout : ∃ unused, frame.locals =
    (assembler.arguments header type).flatMap Value.cells ++ List.replicate unused .empty
  receiver : header.isStatic = false → ∀ line,
    slots.slot "this" line = .ok 0 ∧ frame.locals[0]? = some (assembler.receiver header)
  parameter : ∀ (index : Nat) parameter, header.parameters[index]? = some parameter →
    assembler.Identifies header parameter.name → ∃ slot kind, (∀ line, slots.slot parameter.name line = .ok slot) ∧
      type.parameters[index]? = some kind ∧
      slot.toNat = header.firstSlot.toNat + FieldType.totalSize (type.parameters.take index) ∧
      frame.locals[slot.toNat]? = some (.ofType kind)

theorem initialFrame_assemble (assembler : Assembler) (header : Header) (ranges : List ExceptionRange)
    (slots : SlotTable) (emission : Emission) (type : MethodType) :
    assembler.verifier.initialFrame (assembler.assemble header ranges slots emission) type =
      (Verify.placeArguments slots.high.toNat 0 (assembler.arguments header type)).map (⟨·, []⟩) := by
  have same : assembler.arguments header type = (if header.access.isStatic then []
      else if header.name == Verify.Step.constructorName then [.uninitializedThis assembler.declaringType]
      else [.reference assembler.declaringType]) ++ type.parameters.map Value.ofType := by
    unfold arguments receiver Header.isStatic
    split_ifs <;> rfl
  have laid : assembler.verifier.initialFrame (assembler.assemble header ranges slots emission) type =
      (do return ⟨← Verify.placeArguments slots.high.toNat 0 (assembler.arguments header type), []⟩) := by
    rw [same]
    rfl
  rw [laid]
  cases Verify.placeArguments slots.high.toNat 0 (assembler.arguments header type) <;> rfl

theorem receiver_size (assembler : Assembler) (header : Header) : (assembler.receiver header).size = 1 := by
  unfold receiver
  split <;> rfl

theorem stackHeight_arguments (assembler : Assembler) (header : Header) (type : MethodType) :
    stackHeight (assembler.arguments header type) =
      header.firstSlot.toNat + FieldType.totalSize type.parameters := by
  rw [← Value.stackHeight_ofType]
  unfold arguments Header.firstSlot
  cases header.isStatic with
  | true => exact (Nat.zero_add _).symm
  | false =>
    have behind : stackHeight (assembler.receiver header :: type.parameters.map Value.ofType) =
        1 + stackHeight (type.parameters.map Value.ofType) := by
      rw [stackHeight, receiver_size]
    exact behind

/-- The arguments before a parameter are the receiver and the parameters before it. -/
theorem getElem?_arguments (assembler : Assembler) (header : Header) {index : Nat} {kind : FieldType}
    (typed : type.parameters[index]? = some kind) : ∃ place,
      (assembler.arguments header type)[place]? = some (.ofType kind) ∧
        stackHeight ((assembler.arguments header type).take place) =
          header.firstSlot.toNat + FieldType.totalSize (type.parameters.take index) := by
  have value : (type.parameters.map Value.ofType)[index]? = some (.ofType kind) := by
    rw [List.getElem?_map, typed]
    rfl
  rw [← Value.stackHeight_ofType, List.map_take]
  unfold arguments Header.firstSlot
  cases header.isStatic with
  | true => exact ⟨index, value, (Nat.zero_add _).symm⟩
  | false =>
    refine ⟨index + 1, value, ?_⟩
    have behind : stackHeight ((assembler.receiver header :: type.parameters.map Value.ofType).take (index + 1)) =
        1 + stackHeight ((type.parameters.map Value.ofType).take index) := by
      rw [List.take_succ_cons, stackHeight, receiver_size]
    exact behind

theorem initialSlots_eq (assembler : Assembler) (header : Header) : assembler.initialSlots header =
    (SlotTable.ofBaseline header.isStatic assembler.declaringType assembler.baseline).addParametersFrom
      header.firstSlot header.parameters := by
  have kind : (SlotTable.ofBaseline header.isStatic assembler.declaringType assembler.baseline).isStatic =
    header.isStatic := SlotTable.ofBaseline_registers.isStatic
  have laid : assembler.initialSlots header =
    (SlotTable.ofBaseline header.isStatic assembler.declaringType assembler.baseline).addParameters
      header.parameters := rfl
  rw [laid, SlotTable.addParameters, kind]
  rfl

theorem firstSlot_le_high (assembler : Assembler) (header : Header) : header.firstSlot.toNat ≤
    (SlotTable.ofBaseline header.isStatic assembler.declaringType assembler.baseline).high.toNat := by
  unfold Header.firstSlot
  cases header.isStatic with
  | true => exact Nat.zero_le _
  | false =>
    have known := SlotTable.mem_ofBaseline_receiver assembler.declaringType assembler.baseline
    exact SlotTable.ofBaseline_sound.ends known

section
variable (prepared : assembler.Prepared listing header ranges slots emission)
  (denoted : List.Forall₂ Parameter.Denotes header.parameters type.parameters)
  (room : header.firstSlot.toNat + FieldType.totalSize type.parameters ≤ slotLimit)
include prepared

theorem Prepared.registers : SlotTable.Registers SlotTable.AllowsNew (assembler.initialSlots header) slots :=
  (SlotTable.allocate_ok (initialSlots_sound header) (fun _ => SlotUse.positive) prepared.allocated).1

theorem Prepared.sound : slots.Sound := prepared.registers.sound (initialSlots_sound header)

theorem Prepared.receiver_slot (receives : header.isStatic = false) (line : Nat) :
    slots.slot "this" line = .ok 0 := by
  have known := SlotTable.mem_ofBaseline_receiver assembler.declaringType assembler.baseline
  have kept : SlotTable.receiver assembler.declaringType ∈ (assembler.initialSlots header).entries := by
    refine (SlotTable.addParameters_registers _ _).kept ?_
    rwa [receives]
  have symbolic : slotNumber? "this" = none := by decide +kernel
  exact SlotTable.slot_of_mem prepared.sound (prepared.registers.kept kept) symbolic line

include denoted room

theorem Prepared.high : header.firstSlot.toNat + FieldType.totalSize type.parameters ≤ slots.high.toNat := by
  refine Nat.le_trans ?_ prepared.registers.high
  rw [initialSlots_eq]
  exact SlotTable.addParametersFrom_high denoted room (firstSlot_le_high assembler header)

theorem Prepared.parameter_slot {index : Nat} {parameter : Parameter}
    (listed : header.parameters[index]? = some parameter)
    (identifies : assembler.Identifies header parameter.name) : ∃ slot : UInt16,
      (∀ line, slots.slot parameter.name line = .ok slot) ∧
      slot.toNat = header.firstSlot.toNat + FieldType.totalSize (type.parameters.take index) := by
  have fresh := SlotTable.contains_ofBaseline assembler.declaringType identifies.receiver identifies.baseline
  obtain ⟨entry, known, named, start⟩ :=
    SlotTable.addParametersFrom_entry denoted room listed fresh identifies.once
  rw [← initialSlots_eq] at known
  refine ⟨entry.index, ?_, start⟩
  rw [← named] at identifies ⊢
  exact SlotTable.slot_of_mem prepared.sound (prepared.registers.kept known) identifies.symbolic

/-- In the first frame the arguments are found in the slots that the table has for them. -/
theorem Prepared.agrees : ∃ frame,
    assembler.verifier.initialFrame (assembler.assemble header ranges slots emission) type = .ok frame ∧
      assembler.Agrees header type slots frame := by
  have fits : 0 + stackHeight (assembler.arguments header type) ≤ slots.high.toNat := by
    rw [Nat.zero_add, stackHeight_arguments]
    exact prepared.high denoted room
  have laid := initialFrame_assemble assembler header ranges slots emission type
  rw [Verify.placeArguments_of_fits 0 _ fits] at laid
  refine ⟨_, laid, ⟨_, rfl⟩, ?_, ?_⟩
  · intro receives line
    refine ⟨prepared.receiver_slot receives line, ?_⟩
    have first : (assembler.arguments header type)[0]? = some (assembler.receiver header) := by
      rw [arguments, receives]
      rfl
    exact Value.getElem?_cells first _
  · intro index parameter listed identifies
    obtain ⟨slot, found, start⟩ := prepared.parameter_slot denoted room listed identifies
    obtain ⟨kind, typed⟩ := Parameter.Denotes.getElem? denoted listed
    obtain ⟨place, argument, before⟩ := getElem?_arguments assembler header typed
    refine ⟨slot, kind, found, typed, start, ?_⟩
    rw [start, ← before]
    exact Value.getElem?_cells argument _

end
end Assembler

/-- For every header that a listing has, the descriptor denotes the types of the parameters in their order;
and for every method with code whose arguments have room, the first frame has them where the table of slots
says that they are. -/
theorem arguments_agree {listing : Listing} {aliases : Aliases} {header : Header}
    (read : Header.ofListing listing aliases = .ok header) : ∃ line definition type,
      listing.definition? = some (line, definition) ∧
      header.parameters = definition.parameters.map (fun parameter =>
        { parameter with descriptor := aliases.resolve parameter.descriptor }) ∧
      MethodType.parse header.descriptor = .ok type ∧
      List.Forall₂ Parameter.Denotes header.parameters type.parameters ∧
      ∀ (assembler : Assembler) ranges slots emission,
        assembler.Prepared listing header ranges slots emission →
        header.firstSlot.toNat + FieldType.totalSize type.parameters ≤ slotLimit →
        ∃ frame,
          assembler.verifier.initialFrame (assembler.assemble header ranges slots emission) type = .ok frame ∧
            assembler.Agrees header type slots frame := by
  obtain ⟨line, definition, type, first, same, parsed, denoted⟩ := Header.ofListing_types read
  refine ⟨line, definition, type, first, same, parsed, denoted, ?_⟩
  intro assembler ranges slots emission prepared room
  exact prepared.agrees denoted room

/-- Two parameters share a name, between a wide one and one that is found. -/
def shadowed : Listing :=
  ⟨[⟨1, .definition ⟨[.accPublic], "run", [⟨"wide", "J"⟩, ⟨"twice", "D"⟩, ⟨"twice", "I"⟩, ⟨"last", "Text"⟩], "V"⟩⟩,
    ⟨2, .alias "Text" "Ljava/lang/String;"⟩, ⟨3, .operation (.simple .returnVoid)⟩]⟩

def shadowedHeader : Header where
  access := ⟨1⟩
  name := "run"
  descriptor := "(JDILjava/lang/String;)V"
  signature := none
  exceptions := []
  parameters := [⟨"wide", "J"⟩, ⟨"twice", "D"⟩, ⟨"twice", "I"⟩, ⟨"last", "Ljava/lang/String;"⟩]
  line := 1

def shadowedType : MethodType := ⟨[.long, .double, .int, .object "java/lang/String"], none⟩

/-- Knows a variable in the second slot of the wide parameter. -/
def revising : Assembler := ⟨"Main", {}, [⟨"spare", 2, "I"⟩]⟩

theorem arguments_agree_shadowed : ∃ emission frame,
    revising.Prepared shadowed shadowedHeader [] (revising.initialSlots shadowedHeader) emission ∧
      revising.Identifies shadowedHeader "last" ∧
      revising.verifier.initialFrame
        (revising.assemble shadowedHeader [] (revising.initialSlots shadowedHeader) emission) shadowedType = .ok frame ∧
      revising.Agrees shadowedHeader shadowedType (revising.initialSlots shadowedHeader) frame := by
  have read : Header.ofListing shadowed (.ofListing shadowed) = .ok shadowedHeader := by decide +kernel
  have denotes : MethodType.parse shadowedHeader.descriptor = .ok shadowedType := by decide +kernel
  have prepared : revising.Prepared shadowed shadowedHeader [] (revising.initialSlots shadowedHeader) _ :=
    ⟨read, by decide, rfl, rfl, rfl⟩
  have identifies : revising.Identifies shadowedHeader "last" :=
    ⟨by decide, .inr (by decide), by decide, by decide +kernel⟩
  obtain ⟨_, _, type, _, _, parsed, _, agree⟩ := arguments_agree read
  cases denotes.symm.trans parsed
  obtain ⟨frame, built, agrees⟩ := agree _ _ _ _ prepared (by decide)
  exact ⟨_, frame, prepared, identifies, built, agrees⟩

end Bytecode
