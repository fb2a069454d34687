import Bytecode.Proofs.Shuffles

/-! The kinds of things instructions do to a frame, and the rule for each kind. An
instruction succeeds exactly when the rule of its kind applies, so that what is proved of
the rules is proved of every opcode. -/

namespace Bytecode.Verify
open List

inductive Action where
  /-- Pops operands and pushes a result, both of which are fixed by the instruction. -/
  | effect (effect : Effect)
  | shuffle (opcode : Opcode)
  /-- Takes an index and an array of references, and puts an element in their place. -/
  | element
  | load (slot : Nat) (kind : Value)
  /-- Uses a local without moving it. -/
  | consult (slot : Nat) (kind : Value)
  | store (slot : Nat) (kinds : List Demand)
  | leave (returned : Option Demand)
  /-- A call on an object that has been constructed. -/
  | receive (arguments : List Demand) (result : Option Value)
  /-- A call that constructs its receiver. -/
  | construct (arguments : List Demand) (result : Option Value)

/-- What a constructor call makes of its receiver. -/
def Surroundings.constructed? (around : Surroundings) : Value → Option Value
  | .uninitializedThis _ => some (.reference around.declaringType)
  | .uninitialized _ name => some (.reference name)
  | _ => none

/-- The result of an instruction, if it has one, fits on the stack. -/
def Surroundings.Fits (around : Surroundings) (result : Option Value) (rest : List Value) : Prop :=
  result = none ∨ stackHeight (result.toList ++ rest) ≤ around.maxStack

namespace Action

def ofSimple (opcode : Opcode) : Action :=
  match Effect.ofSimple? opcode with
  | some fixed => effect fixed
  | none =>
    match Effect.ofReturn? opcode with
    | some returned => leave returned
    | none => if opcode = .aaload then element else shuffle opcode

def ofVariable? (opcode : Opcode) (slot : Nat) : Option Action :=
  match opcode, Step.accessKind? opcode with
  | .astore, _ => some (store slot [.reference, .exactly .returnAddress])
  | .ret, _ => some (consult slot .returnAddress)
  | opcode, some kind =>
    some (if opcode.isStore then store slot [.exactly kind] else load slot kind)
  | _, none => none

def ofInt? : Opcode → Int32 → Option Action
  | .bipush, _ | .sipush, _ => some (effect (.constant .int))
  | .newArray, code =>
    (Opcode.arrayDescriptor? code).map fun descriptor =>
      effect (.unary Effect.int (.reference descriptor))
  | _, _ => none

def ofType? (site : Nat) (opcode : Opcode) (name : String) : Option Action :=
  match opcode with
  | .new => some (effect (.constant (.uninitialized site name)))
  | .newRefArray => some (effect (.unary Effect.int (.reference ("[" ++ nameDescriptor name))))
  | .checkCast => some (effect (.unary .reference (.reference name)))
  | .instanceOf => some (effect (.unary .reference .int))
  | _ => none

def ofField? (opcode : Opcode) (type : FieldType) : Option Action :=
  match opcode with
  | .getStatic => some (effect (.constant (.ofType type)))
  | .putStatic => some (effect ⟨[.ofType type], none⟩)
  | .getField => some (effect (.unary .reference (.ofType type)))
  | .putField => some (effect ⟨[.ofType type, .reference], none⟩)
  | _ => none

def ofMethod (opcode : Opcode) (name : String) (type : MethodType) : Action :=
  let arguments := type.parameters.reverse.map Demand.ofType
  let result := type.result.map Value.ofType
  if opcode = .invokeStatic then effect ⟨arguments, result⟩
  else if opcode == .invokeSpecial && name == Step.constructorName then construct arguments result
  else receive arguments result

/-- What the instruction at an index does; nothing if its opcode or descriptor is wrong. -/
def of? (index : Nat) : Instruction → Option Action
  | .label _ | .line .. => some (effect ⟨[], none⟩)
  | .simple opcode => some (ofSimple opcode)
  | .int opcode operand => ofInt? opcode operand
  | .variable opcode slot => ofVariable? opcode slot.toNat
  | .increment slot _ => some (consult slot.toNat .int)
  | .jump opcode _ => (Effect.ofJump? opcode).map effect
  | .constant value => some (effect (.constant (Step.loadedConstant value)))
  | .type opcode name => ofType? index opcode name
  | .field opcode _ _ descriptor => (FieldType.parse descriptor).toOption.bind (ofField? opcode)
  | .method opcode _ name descriptor _ =>
    (MethodType.parse descriptor).toOption.map (ofMethod opcode name)
  | .callSite _ descriptor _ _ =>
    (MethodType.parse descriptor).toOption.map (ofMethod .invokeStatic "")
  | .tableSwitch .. | .lookupSwitch .. => some (effect ⟨[Effect.int], none⟩)
  | .newArrays descriptor dimensions =>
    some (effect ⟨List.replicate dimensions.toNat Effect.int, some (.reference descriptor)⟩)

/-- An action by the record that it stands for. -/
theorem of?_cases {index : Nat} {instruction : Instruction} {action : Action}
    (known : of? index instruction = some action) :
    (∃ opcode, instruction = .simple opcode ∧ action = ofSimple opcode) ∨
      (∃ opcode slot, instruction = .variable opcode slot ∧
        ofVariable? opcode slot.toNat = some action) ∨
      (∃ slot amount, instruction = .increment slot amount ∧ action = consult slot.toNat .int) ∨
      (∃ opcode owner name descriptor onInterface type,
        instruction = .method opcode owner name descriptor onInterface ∧
        MethodType.parse descriptor = .ok type ∧ action = ofMethod opcode name type) ∨
      ∃ fixed, action = effect fixed := by
  cases instruction with
  | simple opcode =>
    cases known
    exact .inl ⟨opcode, rfl, rfl⟩
  | «variable» opcode slot => exact .inr (.inl ⟨opcode, slot, rfl, known⟩)
  | increment slot amount =>
    cases known
    exact .inr (.inr (.inl ⟨slot, amount, rfl, rfl⟩))
  | method opcode owner name descriptor onInterface =>
    obtain ⟨type, parsed, rfl⟩ := Option.map_eq_some_iff.mp known
    right; right; right; left
    refine ⟨opcode, owner, name, descriptor, onInterface, type, rfl, ?_, rfl⟩
    cases read : MethodType.parse descriptor with
    | error failure => simp [read, Except.toOption] at parsed
    | ok found => simpa [read, Except.toOption] using parsed
  | label | line | constant | tableSwitch | lookupSwitch | newArrays =>
    cases known
    right; right; right; right
    exact ⟨_, rfl⟩
  | int opcode operand =>
    right; right; right; right
    change ofInt? opcode operand = _ at known
    unfold ofInt? at known
    split at known
    · cases known
      exact ⟨_, rfl⟩
    · cases known
      exact ⟨_, rfl⟩
    · obtain ⟨descriptor, _, rfl⟩ := Option.map_eq_some_iff.mp known
      exact ⟨_, rfl⟩
    · cases known
  | jump opcode label =>
    obtain ⟨fixed, _, rfl⟩ := Option.map_eq_some_iff.mp known
    right; right; right; right
    exact ⟨_, rfl⟩
  | type opcode name =>
    right; right; right; right
    change ofType? index opcode name = _ at known
    unfold ofType? at known
    split at known <;> cases known <;> exact ⟨_, rfl⟩
  | field opcode owner name descriptor =>
    right; right; right; right
    obtain ⟨type, _, known⟩ := Option.bind_eq_some_iff.mp known
    unfold ofField? at known
    split at known <;> cases known <;> exact ⟨_, rfl⟩
  | callSite name descriptor =>
    obtain ⟨type, _, rfl⟩ := Option.map_eq_some_iff.mp known
    right; right; right; right
    exact ⟨_, rfl⟩

theorem ofSimple_cases (opcode : Opcode) : (∃ fixed, ofSimple opcode = effect fixed) ∨
    (∃ returned, Effect.ofReturn? opcode = some returned ∧ ofSimple opcode = leave returned) ∨
      ofSimple opcode = element ∨ ofSimple opcode = shuffle opcode := by
  unfold ofSimple
  cases Effect.ofSimple? opcode with
  | some fixed => exact .inl ⟨fixed, rfl⟩
  | none =>
    cases Effect.ofReturn? opcode with
    | some returned => exact .inr (.inl ⟨returned, rfl, rfl⟩)
    | none =>
      right; right
      by_cases loads : opcode = .aaload
      · exact .inl (if_pos loads)
      · exact .inr (if_neg loads)

theorem ofSimple_returns {opcode : Opcode} {returned : Option Demand}
    (returns : Effect.ofReturn? opcode = some returned) : ofSimple opcode = leave returned := by
  cases opcode <;> cases returns <;> rfl

theorem ofMethod_cases (opcode : Opcode) (name : String) (type : MethodType) :
    (opcode = .invokeStatic ∧ ∃ fixed, ofMethod opcode name type = effect fixed) ∨
      (opcode = .invokeSpecial ∧ name = Step.constructorName ∧ ofMethod opcode name type =
        construct (type.parameters.reverse.map Demand.ofType) (type.result.map Value.ofType)) ∨
      opcode ≠ .invokeStatic ∧ ¬ (opcode = .invokeSpecial ∧ name = Step.constructorName) ∧
        ofMethod opcode name type =
          receive (type.parameters.reverse.map Demand.ofType) (type.result.map Value.ofType) := by
  unfold ofMethod
  by_cases static : opcode = .invokeStatic
  · exact .inl ⟨static, _, if_pos static⟩
  · right
    simp only [if_neg static]
    by_cases constructs : (opcode == .invokeSpecial && name == Step.constructorName) = true
    · left
      obtain ⟨special, named⟩ := Bool.and_eq_true_iff.mp constructs
      exact ⟨eq_of_beq special, eq_of_beq named, if_pos constructs⟩
    · right
      refine ⟨static, ?_, if_neg constructs⟩
      intro both
      exact constructs (by simp [both.1, both.2])

/-- Where an action comes from that moves objects or decides their state. -/
def ComesFrom (instruction : Instruction) : Action → Prop
  | store slot _ => ∃ opcode place, opcode.isStore = true ∧ place.toNat = slot ∧
      instruction = .variable opcode place
  | leave returned => ∃ opcode, Effect.ofReturn? opcode = some returned ∧ instruction = .simple opcode
  | construct arguments _ => ∃ owner descriptor onInterface type,
      instruction = .method .invokeSpecial owner Step.constructorName descriptor onInterface ∧
        MethodType.parse descriptor = .ok type ∧ arguments.length = type.parameters.length
  | _ => True

theorem of?_comesFrom {index : Nat} {instruction : Instruction} {action : Action}
    (known : of? index instruction = some action) : ComesFrom instruction action := by
  rcases of?_cases known with ⟨opcode, rfl, rfl⟩ | ⟨opcode, place, rfl, found⟩ | ⟨_, _, _, rfl⟩ |
    ⟨opcode, owner, name, descriptor, onInterface, type, rfl, parsed, rfl⟩ | ⟨_, rfl⟩
  · rcases ofSimple_cases opcode with ⟨_, same⟩ | ⟨returned, returns, same⟩ | same | same
    all_goals
      rw [same]
      first | exact trivial | exact ⟨opcode, returns, rfl⟩
  · cases opcode <;> cases found
    all_goals first | exact trivial | exact ⟨_, place, rfl, rfl, rfl⟩
  · trivial
  · rcases ofMethod_cases opcode name type with ⟨_, _, same⟩ | ⟨rfl, rfl, same⟩ | ⟨_, _, same⟩
    all_goals
      rw [same]
      first | exact trivial | exact ⟨owner, descriptor, onInterface, type, rfl, parsed, by simp⟩
  · trivial

/-- The rules by which actions change a frame. -/
inductive Performs (around : Surroundings) : Action → Frame → Frame → Prop where
  | effect {fixed : Effect} {popped rest locals}
      (meets : Forall₂ Demand.Meets fixed.pops popped) (fits : around.Fits fixed.result rest) :
      Performs around (.effect fixed) ⟨locals, popped ++ rest⟩ ⟨locals, fixed.result.toList ++ rest⟩
  | shuffle {opcode form taken rest locals}
      (known : form ∈ StackForm.ofOpcode opcode) (widths : taken.map Value.isWide = form.taken)
      (fits : form.given = [] ∨ stackHeight (form.arrange taken ++ rest) ≤ around.maxStack) :
      Performs around (.shuffle opcode) ⟨locals, taken ++ rest⟩ ⟨locals, form.arrange taken ++ rest⟩
  | element {array value rest locals}
      (object : array.isReference = true) (found : Step.arrayElement array = .ok value)
      (fits : around.Fits (some value) rest) :
      Performs around .element ⟨locals, .int :: array :: rest⟩ ⟨locals, value :: rest⟩
  | load {slot kind value stack locals}
      (held : locals[slot]? = some value) (usable : value ≠ .empty) (serves : value.Serves kind)
      (fits : around.Fits (some value) stack) :
      Performs around (.load slot kind) ⟨locals, stack⟩ ⟨locals, value :: stack⟩
  | consult {slot kind value stack locals}
      (held : locals[slot]? = some value) (usable : value ≠ .empty) (serves : value.Serves kind) :
      Performs around (.consult slot kind) ⟨locals, stack⟩ ⟨locals, stack⟩
  | store {slot kinds value rest locals}
      (meets : ∃ kind ∈ kinds, kind.Meets value) (inside : slot + value.size ≤ locals.length) :
      Performs around (.store slot kinds) ⟨locals, value :: rest⟩
        ⟨locals.mapIdx (overwrite slot value), rest⟩
  | leave {returned popped rest locals}
      (declared : returned = around.result.map Demand.ofType)
      (meets : Forall₂ Demand.Meets returned.toList popped)
      (initialized : around.isConstructor = true →
        ∀ name, locals[0]? ≠ some (.uninitializedThis name)) :
      Performs around (.leave returned) ⟨locals, popped ++ rest⟩ ⟨locals, rest⟩
  | receive {arguments result popped receiver rest locals}
      (meets : Forall₂ Demand.Meets arguments popped) (object : receiver.isReference = true)
      (initialized : receiver.isUninitialized = false) (fits : around.Fits result rest) :
      Performs around (.receive arguments result) ⟨locals, popped ++ receiver :: rest⟩
        ⟨locals, result.toList ++ rest⟩
  | construct {arguments result popped receiver object rest locals middle}
      (meets : Forall₂ Demand.Meets arguments popped)
      (made : around.constructed? receiver = some object)
      (replaced : middle = (⟨locals, rest⟩ : Frame).replace receiver object)
      (fits : around.Fits result middle.stack) :
      Performs around (.construct arguments result) ⟨locals, popped ++ receiver :: rest⟩
        ⟨middle.locals, result.toList ++ middle.stack⟩

/-- A step succeeds exactly when the rule of its action applies; without an action it fails. -/
def Follows (around : Surroundings) (step : Step Unit) (action : Option Action) : Prop :=
  ∀ before after, step.run before = .ok ((), after) ↔
    ∃ known, action = some known ∧ Performs around known before after

end Action
end Bytecode.Verify
