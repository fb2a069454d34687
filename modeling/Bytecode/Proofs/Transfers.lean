import Bytecode.Proofs.Actions

/-! The code of every instruction agrees with the rule of its action. Opcodes of one kind
share their proof; only the choice of the kind looks at the opcode itself. -/

namespace Bytecode.Verify.Action
open List
open Step (bind_ok pure_ok get_ok fail_ok push_ok pop_ok popAs_ok popEach_ok load_ok store_ok)

variable {around : Surroundings} {before after : Frame} {done : Unit}

private theorem Follows.of_performs {step : Step Unit} {action : Action}
    (agrees : ∀ before after, step.run before = .ok ((), after) ↔ Performs around action before after) :
    Follows around step (some action) := by
  intro before after
  rw [agrees]
  simp

private theorem follows_fail {violation : Violation} : Follows around (Step.fail violation) none := by
  intro before after
  simp

private theorem fits_some {value : Value} {rest : List Value} :
    around.Fits (some value) rest ↔ value.size + stackHeight rest ≤ around.maxStack := by
  simp [Surroundings.Fits, stackHeight]

private theorem give_ok (result : Option Value) :
    (match result with
      | some value => Step.push around.maxStack value
      | none => pure ()).run before = .ok (done, after) ↔
      around.Fits result before.stack ∧ after = ⟨before.locals, result.toList ++ before.stack⟩ := by
  cases result with
  | none =>
    rw [pure_ok]
    simp [Surroundings.Fits]
  | some value =>
    rw [push_ok, fits_some]
    rfl

private theorem follows_effect (fixed : Effect) :
    Follows around (fixed.run around.maxStack) (some (.effect fixed)) := by
  apply Follows.of_performs
  intro before after
  simp only [Effect.run, bind_ok, popEach_ok]
  constructor
  · rintro ⟨_, ⟨locals, rest⟩, ⟨popped, meets, rfl⟩, given⟩
    obtain ⟨fits, rfl⟩ := (give_ok _).mp given
    exact .effect meets fits
  · intro performs
    cases performs with
    | effect meets fits => exact ⟨(), ⟨_, _⟩, ⟨_, meets, rfl⟩, (give_ok _).mpr ⟨fits, rfl⟩⟩

private theorem follows_push (value : Value) :
    Follows around (Step.push around.maxStack value) (some (.effect (.constant value))) := by
  have same : Step.push around.maxStack value = (Effect.constant value).run around.maxStack := by
    simp [Effect.constant, Effect.run, Step.popEach]
  rw [same]
  exact follows_effect _

private theorem follows_unary (demand : Demand) (value : Value) :
    Follows around (do let _ ← Step.popAs demand; Step.push around.maxStack value)
      (some (.effect (.unary demand value))) := by
  have same : (do let _ ← Step.popAs demand; Step.push around.maxStack value) =
      (Effect.unary demand value).run around.maxStack := by
    simp [Effect.unary, Effect.run, Step.popEach]
  rw [same]
  exact follows_effect _

private theorem follows_popEach (demands : List Demand) :
    Follows around (Step.popEach demands) (some (.effect ⟨demands, none⟩)) := by
  have same : Step.popEach demands = (⟨demands, none⟩ : Effect).run around.maxStack := by
    simp [Effect.run]
  rw [same]
  exact follows_effect _

/-- What a return asks of the receiver of a constructor. -/
def checkReceiver (around : Surroundings) : Step Unit := do
  let frame ← get
  match around.isConstructor, frame.local? 0 with
  | true, some (.uninitializedThis name) =>
    Step.fail (.typeMismatch .initializedThis (.value (.uninitializedThis name)))
  | _, _ => pure ()

theorem leave_eq (opcode : Opcode) :
    Step.leave around opcode (around.result.map Demand.ofType) =
      (Step.popEach (around.result.map Demand.ofType).toList >>= fun _ => checkReceiver around) := by
  unfold Step.leave
  cases around.result <;> simp [Step.popEach] <;> rfl

private theorem checkReceiver_ok : (checkReceiver around).run before = .ok (done, after) ↔
    (around.isConstructor = true → ∀ name, before.locals[0]? ≠ some (.uninitializedThis name)) ∧
      after = before := by
  simp only [checkReceiver, bind_ok, get_ok]
  constructor
  · rintro ⟨_, _, ⟨rfl, rfl⟩, checked⟩
    split at checked
    next => simp at checked
    next other =>
      exact ⟨fun constructs name held => other name constructs held, (pure_ok.mp checked).2⟩
  · rintro ⟨initialized, rfl⟩
    refine ⟨_, _, ⟨rfl, rfl⟩, ?_⟩
    split
    next name constructs held => exact absurd held (initialized constructs name)
    next => exact pure_ok.mpr ⟨rfl, rfl⟩

private theorem follows_leave (opcode : Opcode) (returned : Option Demand) :
    Follows around (Step.leave around opcode returned) (some (.leave returned)) := by
  apply Follows.of_performs
  intro before after
  by_cases declared : returned = around.result.map Demand.ofType
  · subst declared
    simp only [leave_eq, bind_ok, popEach_ok, checkReceiver_ok]
    constructor
    · rintro ⟨_, ⟨locals, rest⟩, ⟨popped, meets, rfl⟩, initialized, rfl⟩
      exact .leave rfl meets initialized
    · intro performs
      cases performs with
      | leave _ meets initialized => exact ⟨(), ⟨_, _⟩, ⟨_, meets, rfl⟩, initialized, rfl⟩
  · simp only [Step.leave, declared, if_false, fail_ok, false_iff]
    intro performs
    cases performs with
    | leave agreed => exact declared agreed

private theorem lift_ok {α : Type} {found : Except Violation α} {value : α} :
    (liftM found : Step α).run before = .ok (value, after) ↔ found = .ok value ∧ after = before := by
  cases found <;> simp [liftM, monadLift, MonadLift.monadLift, StateT.lift, StateT.run, bind,
    Except.bind, pure, Except.pure, eq_comm]

private theorem follows_element : Follows around (do
      let _ ← Step.popAs Effect.int
      let array ← Step.popAs .reference
      let element ← (Step.arrayElement array : Except Violation Value)
      Step.push around.maxStack element : Step Unit) (some .element) := by
  apply Follows.of_performs
  intro before after
  simp only [bind_ok, popAs_ok, push_ok, lift_ok]
  constructor
  · rintro ⟨index, _, ⟨whole, rfl⟩, array, ⟨locals, rest⟩, ⟨object, rfl⟩, value, _, ⟨found, rfl⟩,
      fits, rfl⟩
    obtain rfl : index = .int := eq_of_beq whole
    exact .element object found (fits_some.mpr fits)
  · intro performs
    cases performs with
    | element object found fits =>
      exact ⟨.int, ⟨_, _⟩, ⟨rfl, rfl⟩, _, ⟨_, _⟩, ⟨object, rfl⟩, _, _, ⟨found, rfl⟩,
        fits_some.mp fits, rfl⟩

private theorem follows_shuffle (opcode : Opcode) :
    Follows around (Step.shuffle around.maxStack opcode) (some (.shuffle opcode)) := by
  apply Follows.of_performs
  rintro ⟨locals, stack⟩ after
  rw [Step.shuffle_ok]
  constructor
  · rintro ⟨form, known, taken, widths, rest, rfl, fits, rfl⟩
    exact .shuffle known widths fits
  · intro performs
    cases performs with
    | shuffle known widths fits => exact ⟨_, known, _, widths, _, rfl, fits, rfl⟩

theorem follows_simple (opcode : Opcode) :
    Follows around (Step.simple around opcode) (some (ofSimple opcode)) := by
  unfold Step.simple ofSimple
  cases Effect.ofSimple? opcode with
  | some fixed => exact follows_effect fixed
  | none =>
    cases Effect.ofReturn? opcode with
    | some returned => exact follows_leave opcode returned
    | none =>
      by_cases loads : opcode = .aaload
      · subst loads
        exact follows_element
      · simp only [loads, if_false]
        exact follows_shuffle opcode

private theorem follows_load (slot : Nat) (kind : Value) :
    Follows around (do let value ← Step.load slot kind; Step.push around.maxStack value)
      (some (.load slot kind)) := by
  apply Follows.of_performs
  intro before after
  simp only [bind_ok, load_ok, push_ok]
  constructor
  · rintro ⟨value, _, ⟨held, usable, serves, rfl⟩, fits, rfl⟩
    exact .load held usable serves (fits_some.mpr fits)
  · intro performs
    cases performs with
    | load held usable serves fits =>
      exact ⟨_, _, ⟨held, usable, serves, rfl⟩, fits_some.mp fits, rfl⟩

private theorem follows_consult (slot : Nat) (kind : Value) :
    Follows around (do let _ ← Step.load slot kind) (some (.consult slot kind)) := by
  apply Follows.of_performs
  intro before after
  simp only [bind_ok, load_ok, pure_ok]
  constructor
  · rintro ⟨value, _, ⟨held, usable, serves, rfl⟩, _, rfl⟩
    exact .consult held usable serves
  · intro performs
    cases performs with
    | consult held usable serves => exact ⟨_, _, ⟨held, usable, serves, rfl⟩, trivial, rfl⟩

private theorem follows_store (slot : Nat) (kind : Value) :
    Follows around (do let value ← Step.popAs (.exactly kind); Step.store slot value)
      (some (.store slot [.exactly kind])) := by
  apply Follows.of_performs
  intro before after
  simp only [bind_ok, popAs_ok, store_ok]
  constructor
  · rintro ⟨value, ⟨locals, rest⟩, ⟨meets, rfl⟩, inside, rfl⟩
    exact .store ⟨_, List.mem_singleton_self _, meets⟩ inside
  · intro performs
    cases performs with
    | store meets inside =>
      obtain ⟨demand, known, meets⟩ := meets
      obtain rfl := List.mem_singleton.mp known
      exact ⟨_, ⟨_, _⟩, ⟨meets, rfl⟩, inside, rfl⟩

private theorem follows_storeObject (slot : Nat) :
    Follows around (do
        let value ← Step.pop
        if value.isReference || value == .returnAddress then Step.store slot value
        else Step.fail (.typeMismatch .referenceOrReturnAddress (.value value)))
      (some (.store slot [.reference, .exactly .returnAddress])) := by
  apply Follows.of_performs
  intro before after
  simp only [bind_ok, pop_ok]
  constructor
  · rintro ⟨value, ⟨locals, rest⟩, rfl, kept⟩
    split at kept
    next storable =>
      obtain ⟨inside, rfl⟩ := store_ok.mp kept
      refine .store ?_ inside
      simpa [Demand.Meets, Demand.accepts] using storable
    next => simp at kept
  · intro performs
    cases performs with
    | @store _ _ value rest locals meets inside =>
      have storable : (value.isReference || value == .returnAddress) = true := by
        simpa [Demand.Meets, Demand.accepts] using meets
      refine ⟨value, ⟨locals, rest⟩, rfl, ?_⟩
      rw [if_pos storable]
      exact store_ok.mpr ⟨inside, rfl⟩

private theorem ofVariable?_eq {opcode : Opcode} {slot : Nat} (stores : opcode ≠ .astore)
    (returns : opcode ≠ .ret) : ofVariable? opcode slot = (Step.accessKind? opcode).map fun kind =>
      if opcode.isStore then store slot [.exactly kind] else load slot kind := by
  unfold ofVariable?
  split <;> simp_all

private theorem follows_variable (opcode : Opcode) (slot : Nat) :
    Follows around (Step.localAccess around.maxStack opcode slot) (ofVariable? opcode slot) := by
  unfold Step.localAccess
  split
  next => exact follows_storeObject slot
  next => exact follows_consult slot _
  next kind stores returns known =>
    rw [ofVariable?_eq stores returns, known, Option.map_some]
    split
    next => exact follows_store slot kind
    next => exact follows_load slot kind
  next stores returns known =>
    rw [ofVariable?_eq stores returns, known]
    exact follows_fail

private theorem follows_int (opcode : Opcode) (operand : Int32) :
    Follows around (Step.int around.maxStack opcode operand) (ofInt? opcode operand) := by
  unfold Step.int
  split
  next => exact follows_push _
  next => exact follows_push _
  next =>
    show Follows around _ ((Opcode.arrayDescriptor? operand).map fun descriptor =>
      effect (.unary Effect.int (.reference descriptor)))
    cases Opcode.arrayDescriptor? operand with
    | some descriptor => exact follows_unary _ _
    | none =>
      intro before after
      simp [bind_ok, -StateT.run_bind]
  next =>
    unfold ofInt?
    split
    · contradiction
    · contradiction
    · contradiction
    · exact follows_fail

private theorem follows_type (site : Nat) (opcode : Opcode) (name : String) :
    Follows around (Step.type around.maxStack site opcode name) (ofType? site opcode name) := by
  unfold Step.type
  split
  next => exact follows_push _
  next => exact follows_unary _ _
  next => exact follows_unary _ _
  next => exact follows_unary _ _
  next =>
    unfold ofType?
    split <;> first | contradiction | exact follows_fail

private theorem follows_field (opcode : Opcode) (descriptor : String) :
    Follows around (Step.field around.maxStack opcode descriptor)
      ((FieldType.parse descriptor).toOption.bind (ofField? opcode)) := by
  unfold Step.field
  cases FieldType.parse descriptor with
  | error error => exact follows_fail
  | ok type =>
    simp only [Except.toOption, Option.bind_some]
    split
    next => exact follows_push _
    next => exact follows_popEach _
    next => exact follows_unary _ _
    next => exact follows_popEach _
    next =>
      unfold ofField?
      split <;> first | contradiction | exact follows_fail

private theorem pushResult_ok (result : Option FieldType) :
    (Step.pushResult around.maxStack result).run before = .ok (done, after) ↔
      around.Fits (result.map Value.ofType) before.stack ∧
        after = ⟨before.locals, (result.map Value.ofType).toList ++ before.stack⟩ := by
  rw [← give_ok]
  cases result <;> rfl

private theorem receive_ok (owner : String) :
    (Step.receive around false owner).run before = .ok (done, after) ↔
      ∃ receiver, receiver.isReference = true ∧ receiver.isUninitialized = false ∧
        before = ⟨after.locals, receiver :: after.stack⟩ := by
  simp only [Step.receive, bind_ok, popAs_ok, Bool.false_eq_true, if_false]
  constructor
  · rintro ⟨receiver, middle, ⟨object, rfl⟩, kept⟩
    split at kept
    next => simp at kept
    next initialized =>
      obtain ⟨_, rfl⟩ := pure_ok.mp kept
      exact ⟨receiver, object, by simpa using initialized, rfl⟩
  · rintro ⟨receiver, object, initialized, rfl⟩
    refine ⟨receiver, after, ⟨object, rfl⟩, ?_⟩
    rw [if_neg (by simp [initialized])]
    exact pure_ok.mpr ⟨rfl, rfl⟩

private theorem initializeAll_ok {target replacement : Value} :
    (Step.initializeAll target replacement).run before = .ok (done, after) ↔
      after = before.replace target replacement := by
  rw [Step.initializeAll, StateT.run_modify]
  simp [pure, Except.pure, eq_comm]

private theorem construct_ok (owner : String) :
    (Step.receive around true owner).run before = .ok (done, after) ↔
      ∃ receiver object rest, around.constructed? receiver = some object ∧
        before = ⟨before.locals, receiver :: rest⟩ ∧
        after = (⟨before.locals, rest⟩ : Frame).replace receiver object := by
  simp only [Step.receive, bind_ok, popAs_ok, if_true]
  constructor
  · rintro ⟨receiver, middle, ⟨object, rfl⟩, kept⟩
    cases receiver with
    | uninitializedThis name =>
      exact ⟨_, _, middle.stack, rfl, rfl, initializeAll_ok.mp kept⟩
    | uninitialized site name =>
      exact ⟨_, _, middle.stack, rfl, rfl, initializeAll_ok.mp kept⟩
    | _ => simp at kept
  · rintro ⟨receiver, object, rest, made, same, rfl⟩
    cases receiver with
    | uninitializedThis name =>
      cases made
      exact ⟨.uninitializedThis name, ⟨_, rest⟩, ⟨rfl, same⟩, initializeAll_ok.mpr rfl⟩
    | uninitialized site name =>
      cases made
      exact ⟨.uninitialized site name, ⟨_, rest⟩, ⟨rfl, same⟩, initializeAll_ok.mpr rfl⟩
    | _ => cases made

private theorem follows_call (opcode : Opcode) (owner name descriptor : String) :
    Follows around (Step.call around.maxStack descriptor <|
        if opcode = .invokeStatic then pure ()
        else Step.receive around (opcode == .invokeSpecial && name == Step.constructorName) owner)
      ((MethodType.parse descriptor).toOption.map (ofMethod opcode name)) := by
  unfold Step.call
  cases MethodType.parse descriptor with
  | error error => exact follows_fail
  | ok type =>
    simp only [Except.toOption, Option.map_some]
    apply Follows.of_performs
    intro before after
    by_cases static : opcode = .invokeStatic
    · simp only [ofMethod, static, if_true, bind_ok, popEach_ok, pure_ok, pushResult_ok]
      constructor
      · rintro ⟨_, ⟨locals, rest⟩, ⟨popped, meets, rfl⟩, _, _, ⟨_, rfl⟩, fits, rfl⟩
        exact .effect meets fits
      · intro performs
        cases performs with
        | effect meets fits => exact ⟨(), ⟨_, _⟩, ⟨_, meets, rfl⟩, (), _, ⟨trivial, rfl⟩, fits, rfl⟩
    cases constructs : opcode == .invokeSpecial && name == Step.constructorName with
    | true =>
      simp only [ofMethod, static, constructs, if_true, if_false, bind_ok, popEach_ok,
        construct_ok, pushResult_ok]
      constructor
      · rintro ⟨_, ⟨locals, stack⟩, ⟨popped, meets, rfl⟩, _, _,
          ⟨receiver, object, rest, made, same, rfl⟩, fits, rfl⟩
        cases same
        exact .construct meets made rfl fits
      · intro performs
        cases performs with
        | construct meets made replaced fits =>
          exact ⟨(), ⟨_, _ :: _⟩, ⟨_, meets, rfl⟩, (), _, ⟨_, _, _, made, rfl, replaced⟩, fits,
            rfl⟩
    | false =>
      simp only [ofMethod, static, constructs, if_false, bind_ok, popEach_ok, receive_ok,
        pushResult_ok, Bool.false_eq_true]
      constructor
      · rintro ⟨_, _, ⟨popped, meets, rfl⟩, _, ⟨locals, rest⟩,
          ⟨receiver, object, initialized, rfl⟩, fits, rfl⟩
        exact .receive meets object initialized fits
      · intro performs
        cases performs with
        | receive meets object initialized fits =>
          exact ⟨(), ⟨_, _ :: _⟩, ⟨_, meets, rfl⟩, (), ⟨_, _⟩, ⟨_, object, initialized, rfl⟩,
            fits, rfl⟩

/-- The code of an instruction and the rule of its action agree. -/
theorem transfer_follows (index : Nat) (instruction : Instruction) :
    Follows around (transfer around index instruction) (of? index instruction) := by
  cases instruction with
  | label | line => exact follows_popEach []
  | simple opcode => exact follows_simple opcode
  | int opcode operand => exact follows_int opcode operand
  | «variable» opcode slot => exact follows_variable opcode slot.toNat
  | increment slot => exact follows_consult slot.toNat .int
  | jump opcode label =>
    simp only [transfer, of?]
    cases Effect.ofJump? opcode with
    | some fixed => exact follows_effect fixed
    | none => exact follows_fail
  | constant value => exact follows_push _
  | type opcode name => exact follows_type index opcode name
  | field opcode owner name descriptor => exact follows_field opcode descriptor
  | method opcode owner name descriptor => exact follows_call opcode owner name descriptor
  | callSite name descriptor => exact follows_call .invokeStatic "" "" descriptor
  | tableSwitch | lookupSwitch => exact follows_popEach [Effect.int]
  | newArrays descriptor dimensions =>
    exact follows_effect ⟨List.replicate dimensions.toNat Effect.int, some (.reference descriptor)⟩

end Bytecode.Verify.Action
