import Bytecode.Proofs.ArgumentSlots
import Bytecode.Proofs.HeldValues
import Bytecode.Proofs.LineMarkers
import Bytecode.Slots.LiveRange

/-! The names of types that frames hold. Operands and descriptors are checked before they get there, and merges,
element loads and constructor calls make no new names. Only arrays of references are made unchecked, with one
dimension more than their elements have. -/

namespace Bytecode
open Verify (Value Setting Frame objectName throwableName)

/-- A text that denotes the type of a variable. -/
def DenotesType (descriptor : String) : Prop := ∃ type, FieldType.parse descriptor = .ok type

/-- A name that an instruction on types may have as its operand. -/
def NamesType (name : String) : Prop := ∃ type, FieldType.ofOperand name = .ok type

theorem namesType_iff {name : String} : NamesType name ↔ DenotesType (nameDescriptor name) := by
  simp only [NamesType, DenotesType, FieldType.ofOperand_iff]

theorem NamesType.of_internalName {name : String} (valid : isInternalName name.toList = true) : NamesType name := by
  have plain : ¬ name.toList.head? = some '[' := fun leading =>
    (isInternalName_iff.mp valid).plain '[' (List.mem_of_head? leading) (by decide)
  exact ⟨.object name, by simp [FieldType.ofOperand, plain, valid]⟩

namespace FieldType

theorem WellFormed.denotesType {type : FieldType} (formed : type.WellFormed) : DenotesType type.descriptor :=
  ⟨type, parse_iff.mpr ⟨formed, rfl⟩⟩

/-- An array is named as an operand by its own descriptor. -/
theorem WellFormed.namesType_array {element : FieldType} (formed : (array element).WellFormed) :
    NamesType (array element).descriptor := by
  have whole : nameDescriptor (array element).descriptor = (array element).descriptor := by
    simp [nameDescriptor, descriptor_array]
  rw [namesType_iff, whole]
  exact formed.denotesType

/-- An array of a named type has a descriptor unless the type has all the dimensions that there may be. -/
theorem denotesType_array {name : String} {type : FieldType} (named : ofOperand name = .ok type) :
    DenotesType ("[" ++ nameDescriptor name) ↔ type.dimensions < maxDimensions := by
  obtain ⟨formed, same⟩ := parse_iff.mp (ofOperand_iff.mp named)
  have written : "[" ++ nameDescriptor name = (array type).descriptor := by
    rw [same]
    rfl
  rw [written]
  constructor
  · rintro ⟨other, parsed⟩
    obtain ⟨bounds, equal⟩ := parse_iff.mp parsed
    have whole : (array type).HasName := formed.named
    have read := readAny_descriptor whole []
    rw [equal, readAny_descriptor bounds.named] at read
    cases read
    exact bounds.bounded
  · intro room
    exact WellFormed.denotesType ⟨formed.named, room⟩

end FieldType

namespace Verify.Value

/-- A variable that holds the value has an admissible descriptor. -/
def Described (admits : String → Prop) (value : Value) : Prop :=
  ∀ descriptor, value.descriptor? = some descriptor → admits descriptor

variable {admits : String → Prop}

theorem Described.mono {other : String → Prop} {value : Value} (described : value.Described admits)
    (weaker : ∀ descriptor, admits descriptor → other descriptor) : value.Described other :=
  fun descriptor known => weaker descriptor (described descriptor known)

theorem described_reference {name : String} (named : NamesType name) : (reference name).Described DenotesType := by
  intro descriptor known
  cases known
  exact namesType_iff.mp named

theorem namesType_object : NamesType objectName := .of_internalName (by decide)

/-- Values without a name of their own. -/
def isNameless : Value → Bool
  | reference _ | uninitializedThis _ | uninitialized .. => false
  | _ => true

theorem described_of_nameless {value : Value} (plain : value.isNameless = true) : value.Described DenotesType := by
  intro descriptor known
  cases value with
  | null =>
    cases known
    exact namesType_iff.mp namesType_object
  | reference | uninitializedThis | uninitialized => cases plain
  | empty | returnAddress => cases known
  | _ =>
    cases known
    exact ⟨_, rfl⟩

theorem described_ofType {type : FieldType} (formed : type.WellFormed) : (ofType type).Described DenotesType := by
  cases type with
  | object name =>
    have valid := isInternalName_iff.mpr formed.named
    exact described_reference (.of_internalName valid)
  | array element => exact described_reference formed.namesType_array
  | _ => exact described_of_nameless rfl

end Verify.Value

/-- What is checked of the names in a record. -/
def Instruction.Checked : Instruction → Prop
  | .type _ name => NamesType name
  | .newArrays descriptor _ => NamesType descriptor
  | _ => True

/-- The descriptor of the arrays that an instruction makes of references. -/
def Instruction.Arrays (instruction : Instruction) (descriptor : String) : Prop :=
  ∃ operand, instruction = .type .newRefArray operand ∧ descriptor = "[" ++ nameDescriptor operand

namespace Verify.Action
open Value

theorem ofSimple_result {opcode : Opcode} {value : Value} (pushed : (ofSimple opcode).result? = some value) :
    value.isNameless = true := by
  cases opcode <;> cases pushed <;> rfl

theorem ofJump?_result {opcode : Opcode} {fixed : Effect} {value : Value} (known : Effect.ofJump? opcode = some fixed)
    (pushed : fixed.result = some value) : value.isNameless = true := by
  cases opcode <;> cases known <;> cases pushed
  rfl

theorem ofVariable?_result {opcode : Opcode} {slot : Nat} {action : Action}
    (known : ofVariable? opcode slot = some action) : action.result? = none := by
  cases opcode <;> cases known <;> rfl

theorem arrayDescriptor?_denotes {code : Int32} {descriptor : String}
    (known : Opcode.arrayDescriptor? code = some descriptor) : NamesType descriptor := by
  unfold Opcode.arrayDescriptor? at known
  split at known
  case h_9 => cases known
  all_goals
    cases known
    exact ⟨_, rfl⟩

theorem ofMethod_result {opcode : Opcode} {name : String} {type : MethodType} {value : Value}
    (pushed : (ofMethod opcode name type).result? = some value) : ∃ result ∈ type.result, value = ofType result := by
  have given : type.result.map Value.ofType = some value := by
    unfold ofMethod at pushed
    split at pushed
    · exact pushed
    · split at pushed <;> exact pushed
  obtain ⟨result, declared, rfl⟩ := Option.map_eq_some_iff.mp given
  exact ⟨result, declared, rfl⟩

/-- What an instruction pushes has a descriptor, or is an array that it has just made. -/
theorem result_described {index : Nat} {instruction : Instruction} {action : Action} {value : Value}
    (checked : instruction.Checked) (known : of? index instruction = some action)
    (pushed : action.result? = some value) :
    value.Described fun descriptor => DenotesType descriptor ∨ instruction.Arrays descriptor := by
  have plain (described : value.Described DenotesType) :
      value.Described fun descriptor => DenotesType descriptor ∨ instruction.Arrays descriptor :=
    described.mono fun _ => .inl
  have called {descriptor : String} {opcode : Opcode} {name : String} {type : MethodType}
      (parsed : (MethodType.parse descriptor).toOption = some type)
      (pushed : (ofMethod opcode name type).result? = some value) : value.Described DenotesType := by
    obtain ⟨result, declared, rfl⟩ := ofMethod_result pushed
    cases read : MethodType.parse descriptor with
    | error => simp [read, Except.toOption] at parsed
    | ok found =>
      obtain rfl : found = type := by simpa [read, Except.toOption] using parsed
      exact described_ofType ((MethodType.parse_iff.mp read).1.result result declared)
  cases instruction with
  | label | line | increment | tableSwitch | lookupSwitch =>
    cases known
    cases pushed
  | simple opcode =>
    cases known
    exact plain (described_of_nameless (ofSimple_result pushed))
  | «variable» opcode slot => cases (ofVariable?_result known).symm.trans pushed
  | int opcode operand =>
    change ofInt? opcode operand = some action at known
    unfold ofInt? at known
    split at known
    · cases known
      cases pushed
      exact plain (described_of_nameless rfl)
    · cases known
      cases pushed
      exact plain (described_of_nameless rfl)
    · obtain ⟨descriptor, coded, rfl⟩ := Option.map_eq_some_iff.mp known
      cases pushed
      exact plain (described_reference (arrayDescriptor?_denotes coded))
    · cases known
  | jump opcode label =>
    obtain ⟨fixed, jumps, rfl⟩ := Option.map_eq_some_iff.mp known
    exact plain (described_of_nameless (ofJump?_result jumps pushed))
  | constant constant =>
    cases known
    cases pushed
    cases constant with
    | int | long | float | double => exact plain (described_of_nameless rfl)
    | string | type | methodType | handle =>
      exact plain (described_reference (.of_internalName (by decide)))
  | type opcode name =>
    change ofType? index opcode name = some action at known
    unfold ofType? at known
    split at known
    · cases known
      cases pushed
      exact plain (described_reference checked)
    · cases known
      cases pushed
      intro descriptor known
      cases known
      exact .inr ⟨name, rfl, by simp [nameDescriptor]⟩
    · cases known
      cases pushed
      exact plain (described_reference checked)
    · cases known
      cases pushed
      exact plain (described_of_nameless rfl)
    · cases known
  | field opcode owner name descriptor =>
    obtain ⟨type, parsed, known⟩ := Option.bind_eq_some_iff.mp known
    cases read : FieldType.parse descriptor with
    | error => simp [read, Except.toOption] at parsed
    | ok found =>
      obtain rfl : found = type := by simpa [read, Except.toOption] using parsed
      have formed := (FieldType.parse_iff.mp read).1
      unfold ofField? at known
      split at known <;> cases known <;> cases pushed <;> exact plain (described_ofType formed)
  | method opcode owner name descriptor =>
    obtain ⟨type, parsed, rfl⟩ := Option.map_eq_some_iff.mp known
    exact plain (called parsed pushed)
  | callSite name descriptor =>
    obtain ⟨type, parsed, rfl⟩ := Option.map_eq_some_iff.mp known
    exact plain (called parsed pushed)
  | newArrays descriptor dimensions =>
    cases known
    cases pushed
    exact plain (described_reference checked)

end Verify.Action

namespace Verify
open Value

theorem arrayElement_described {array value : Value} (found : Step.arrayElement array = .ok value) :
    value.Described DenotesType := by
  cases array with
  | null =>
    cases found
    exact described_of_nameless rfl
  | reference name =>
    simp only [Step.arrayElement] at found
    split at found
    · split at found
      next type parsed =>
        split at found
        · cases found
          exact described_ofType (FieldType.parse?_iff.mp parsed).1
        · cases found
      · cases found
    · cases found
      exact described_reference namesType_object
  | _ => cases found

theorem mem_placed {count slot : Nat} {values locals : List Value}
    (placed : placeArguments count slot values = .ok locals) : ∀ value ∈ locals, value ≠ .empty → value ∈ values := by
  induction values generalizing slot locals with
  | nil =>
    cases placed
    exact fun value listed usable => absurd (List.eq_of_mem_replicate listed) usable
  | cons first rest ih =>
    rw [placeArguments] at placed
    split at placed
    next =>
      obtain ⟨after, laid, rfl⟩ := map_ok.mp placed
      intro value listed usable
      rcases List.mem_cons.mp listed with rfl | listed
      · exact List.mem_cons_self
      · rcases List.mem_append.mp listed with hole | later
        · exact absurd (List.eq_of_mem_replicate hole) usable
        · exact List.mem_cons_of_mem _ (ih laid value later usable)
    next => cases placed

end Verify

/-- A descriptor that a variable of the method can get: one of a type, or that of an array that the method makes. -/
def Method.Admits (method : Method) (descriptor : String) : Prop :=
  DenotesType descriptor ∨ ∃ instruction ∈ method.instructions, instruction.Arrays descriptor

/-- All names of types that get into the frames of the method are checked. -/
structure Method.Checked (method : Method) : Prop where
  instructions : ∀ instruction ∈ method.instructions, instruction.Checked
  caught : ∀ range ∈ method.ranges, ∀ name ∈ range.caught, NamesType name

namespace Verify.Verifier
open Value
variable {verifier : Verifier} {method : Method} {setting : Setting}

theorem initialFrame_described {type : MethodType} {initial : Frame} (own : NamesType verifier.declaringType)
    (formed : type.WellFormed) (built : verifier.initialFrame method type = .ok initial) :
    initial.Each (Described DenotesType) := by
  obtain ⟨locals, placed, same⟩ := except_bind_ok.mp built
  cases same
  refine ⟨?_, fun _ listed => absurd listed List.not_mem_nil⟩
  intro value listed usable
  rcases List.mem_append.mp (mem_placed placed value listed usable) with receiver | argument
  · have this : value.descriptor? = some (nameDescriptor verifier.declaringType) := by
      split at receiver
      · cases receiver
      · split at receiver <;> (cases List.mem_singleton.mp receiver; rfl)
    intro descriptor known
    cases this.symm.trans known
    exact namesType_iff.mp own
  · obtain ⟨parameter, among, rfl⟩ := List.mem_map.mp argument
    exact described_ofType (formed.parameters parameter among)

theorem closed_described (prepared : verifier.setting method = .ok setting) (own : NamesType verifier.declaringType)
    (checked : method.Checked) : setting.Closed (Described method.Admits) := by
  obtain ⟨type, parsed, built, around, placed, _⟩ := setting_ok prepared
  obtain ⟨_, instructions, resolved⟩ := Flow.ofMethod_iff.mp built
  have typed {value : Value} (described : value.Described DenotesType) : value.Described method.Admits :=
    described.mono fun _ => .inl
  constructor
  case object => exact typed (described_reference namesType_object)
  case initial =>
    have each := initialFrame_described own (MethodType.parse_iff.mp parsed).1 placed
    exact ⟨fun value listed usable => typed (each.locals value listed usable),
      fun value listed => typed (each.stack value listed)⟩
  case results =>
    intro index instruction action value present known pushed
    rw [instructions] at present
    have listed := Array.mem_of_getElem? present
    exact (Action.result_described (checked.instructions instruction listed) known pushed).mono fun _ =>
      Or.imp id fun arrays => ⟨instruction, listed, arrays⟩
  case elements => exact fun array value _ found => typed (arrayElement_described found)
  case objects =>
    intro receiver value described made
    cases receiver with
    | uninitializedThis name =>
      cases made
      rw [← around]
      exact typed (described_reference own)
    | uninitialized site name =>
      cases made
      exact described
    | _ => cases made
  case caught =>
    intro handler listed
    obtain ⟨⟨range, number⟩, among, found⟩ := forall₂_mem_right resolved listed
    obtain ⟨_, _, _, _, same⟩ := HandlerRange.ofRange_ok.mp found
    rw [same]
    apply typed (described_reference _)
    cases catches : range.caught with
    | none => exact .of_internalName (by decide)
    | some name => exact checked.caught range (List.fst_mem_of_mem_zipIdx among) name catches

/-- In the frames of a checked method every value has a type that has been checked. -/
theorem frames_described {frames : Array (Option Frame)} (accepted : verifier.analyze method = .ok frames)
    (own : NamesType verifier.declaringType) (checked : method.Checked) {frame : Frame}
    (listed : some frame ∈ frames.toList) : frame.Each (Described method.Admits) := by
  obtain ⟨index, held⟩ := Array.mem_iff_getElem?.mp (Array.mem_toList_iff.mp listed)
  obtain ⟨_, _, _, known⟩ := analyze_ok (fun setting prepared =>
    (closed_described prepared own checked).carries) (code_of_holds accepted held) accepted
  exact (known index frame held).2

end Verify.Verifier

namespace LiveRange
open Verify

theorem extend_holds {holds : Value → Prop} (object : holds (.reference objectName)) {merged : Value} {last : Nat}
    {values : List (Option Value)} (held : holds merged) (each : ∀ value, some value ∈ values → holds value) :
    holds (extend merged last values).1 := by
  fun_induction extend merged last values with
  | case1 merged last value rest joined found ih =>
    have fresh := each value List.mem_cons_self
    exact ih (Value.merge_holds object found held fresh) fun other listed => each other (List.mem_cons_of_mem _ listed)
  | case2 => exact held
  | case3 => exact held

/-- The type of a live range is that of a value that the frames hold, or of a merge of some. -/
theorem infer?_described {admits : String → Prop} (object : (Value.reference objectName).Described admits)
    {frames : List (Option Frame)} {slot : Nat} {range : LiveRange}
    (each : ∀ frame, some frame ∈ frames → frame.Each (Value.Described admits))
    (inferred : infer? frames slot = some range) : admits range.descriptor := by
  have held (value : Value) (listed : some value ∈ frames.map (valueAt? slot)) : value.Described admits := by
    obtain ⟨entry, among, found⟩ := List.mem_map.mp listed
    obtain ⟨stored, typed⟩ := Option.filter_eq_some_iff.mp found
    obtain ⟨frame, rfl, stored⟩ := Option.bind_eq_some_iff.mp stored
    have usable : value ≠ .empty := by
      rintro rfl
      cases typed
    exact (each frame among).locals value (List.mem_of_getElem? stored) usable
  obtain ⟨first, _, inferred⟩ := Option.bind_eq_some_iff.mp inferred
  obtain ⟨value, found, inferred⟩ := Option.bind_eq_some_iff.mp inferred
  simp only at inferred
  obtain ⟨descriptor, known, same⟩ := Option.bind_eq_some_iff.mp inferred
  cases same
  have start : value.Described admits :=
    held value (List.mem_of_getElem? (Option.join_eq_some_iff.mp found))
  exact extend_holds object start (fun other listed => held other (List.mem_of_mem_drop listed)) descriptor known

end LiveRange
end Bytecode
