import Bytecode.Proofs.FixedPoint

/-! Whether a constructor has called another one before it returns. The verifier asks this of
the first local alone, and only of what joins have left of it; what that tells on every path,
and what it misses, is settled here. -/

namespace Bytecode.Verify
open List

def Flow.ReturnsAt (flow : Flow) (index : Nat) : Prop :=
  ∃ opcode returned, flow.instructions[index]? = some (.simple opcode) ∧
    Effect.ofReturn? opcode = some returned

/-- The move completes a constructor call on the object under construction. -/
def Setting.CallsThis (setting : Setting) (frames : Array (Option Frame)) (move : Move) : Prop :=
  move.thrown = false ∧ ∃ owner descriptor onInterface type before name,
    setting.flow.instructions[move.source]? =
        some (.method .invokeSpecial owner Step.constructorName descriptor onInterface) ∧
      MethodType.parse descriptor = .ok type ∧ Holds frames move.source before ∧
      before.stack[type.parameters.length]? = some (.uninitializedThis name)

/-- The move completes a store over the slot of the receiver. -/
def Flow.StoresFirst (flow : Flow) (move : Move) : Prop :=
  move.thrown = false ∧ ∃ opcode slot, opcode.isStore = true ∧ slot.toNat = 0 ∧
    flow.instructions[move.source]? = some (.variable opcode slot)

namespace Action

/-- What can happen to a value of one slot in the first local. -/
theorem Performs.first_local {around : Surroundings} {action : Action} {before after : Frame}
    {value : Value} (performs : Performs around action before after)
    (held : before.locals[0]? = some value) (narrow : value.isWide = false) :
    after.locals[0]? = some value ∨ (∃ kinds, action = .store 0 kinds) ∨
      ∃ arguments result, action = .construct arguments result ∧
        before.stack[arguments.length]? = some value ∧ value.isUninitialized = true := by
  cases performs with
  | @store slot kinds stored rest locals =>
    by_cases first : slot = 0
    · subst first
      exact .inr (.inl ⟨kinds, rfl⟩)
    · left
      have held : locals[0]? = some value := held
      have kept : overwrite slot stored 0 value = value := by
        have apart : ¬ 0 = slot := fun same => first same.symm
        simp [overwrite, apart, narrow]
      simp [List.getElem?_mapIdx, held, kept]
  | @construct arguments result popped receiver object rest locals middle meets made replaced =>
    have held : locals[0]? = some value := held
    by_cases same : value = receiver
    · right; right
      refine ⟨arguments, result, rfl, ?_, same ▸ constructed?_uninitialized made⟩
      simp [meets.length_eq, same]
    · left
      simp [replaced, Frame.replace, held, same]
  | _ => exact .inl held

end Action

namespace Setting
variable {setting : Setting} {frames : Array (Option Frame)} {declared : String}

/-- The first local is the receiver as it was passed in, or nothing usable. -/
def Untouched (declared : String) (frame : Frame) : Prop :=
  frame.locals[0]? = some (.uninitializedThis declared) ∨ frame.locals[0]? = some .empty

theorem Untouched.above {lower upper : Frame} (untouched : Untouched declared lower)
    (below : lower.Below upper) : Untouched declared upper := by
  rcases untouched with held | held
  · obtain ⟨other, kept, ordered⟩ := forall₂_held below.locals held
    rcases ordered with rfl | ordered
    · exact .inr kept
    · rw [← ordered.eq_of_uninitialized (.inl rfl)] at kept
      exact .inl kept
  · obtain ⟨other, kept, ordered⟩ := forall₂_held below.locals held
    rcases ordered with rfl | ordered
    · exact .inr kept
    · rw [ordered.of_empty] at kept
      exact .inr kept

/-- As long as no constructor is called on it and nothing stored over it, the first local
does not become anything else. -/
theorem Consistent.untouched (consistent : setting.Consistent frames)
    (start : setting.initial.locals[0]? = some (.uninitializedThis declared))
    {moves : List Move} {index : Nat} (path : setting.flow.Path moves index)
    (uncalled : ∀ move ∈ moves, ¬ setting.CallsThis frames move)
    (unstored : ∀ move ∈ moves, ¬ setting.flow.StoresFirst move) {frame : Frame}
    (held : Holds frames index frame) : Untouched declared frame := by
  -- Moves come latest first, so the induction hypothesis is about all moves but the last.
  induction path generalizing frame with
  | start =>
    obtain ⟨first, known, below⟩ := consistent.start
    rw [held.unique known]
    exact Untouched.above (.inl start) below
  | @step moves move path allowed ih =>
    obtain ⟨before, known⟩ := consistent.reaches path
    have untouched := ih (fun other listed => uncalled other (List.mem_cons_of_mem _ listed))
      (fun other listed => unstored other (List.mem_cons_of_mem _ listed)) known
    cases allowed with
    | @throws instruction source handler present ordinary listed covers =>
      obtain ⟨above, kept, below⟩ := consistent.covers ⟨source, handler.entry, true⟩ before _ known
        (.throws present ordinary listed covers)
      have entered : Untouched declared (before.withStack (.reference handler.caught)) := untouched
      rw [held.unique kept]
      exact entered.above below
    | @goes instruction source target present next =>
      obtain ⟨after, done⟩ := consistent.accepts source instruction before present known
      obtain ⟨above, kept, below⟩ := consistent.covers ⟨source, target, false⟩ before after known
        (.goes present done next)
      rw [held.unique kept]
      refine Untouched.above ?_ below
      obtain ⟨action, named, performs⟩ := (Action.transfer_follows source instruction _ _).mp done
      have carried {value : Value} (first : before.locals[0]? = some value)
          (narrow : value.isWide = false)
          (initial : value.isUninitialized = true → ∃ name, value = .uninitializedThis name) :
          after.locals[0]? = some value := by
        rcases performs.first_local first narrow with same | ⟨kinds, rfl⟩ |
          ⟨arguments, result, rfl, receiver, raw⟩
        · exact same
        · obtain ⟨opcode, slot, stores, zero, rfl⟩ := Action.of?_comesFrom named
          exact absurd ⟨rfl, opcode, slot, stores, zero, present⟩ (unstored _ List.mem_cons_self)
        · obtain ⟨owner, descriptor, onInterface, type, rfl, parsed, count⟩ :=
            Action.of?_comesFrom named
          obtain ⟨name, rfl⟩ := initial raw
          refine absurd ?_ (uncalled _ List.mem_cons_self)
          exact ⟨rfl, owner, descriptor, onInterface, type, before, name, present, parsed, known,
            count ▸ receiver⟩
      rcases untouched with first | first
      · exact .inl (carried first rfl fun _ => ⟨declared, rfl⟩)
      · exact .inr (carried first rfl fun raw => by cases raw)

/-- A return that is accepted in a constructor does not find the receiver untouched. -/
theorem Consistent.returns (consistent : setting.Consistent frames)
    (constructs : setting.around.isConstructor = true) {index : Nat} {frame : Frame}
    (returns : setting.flow.ReturnsAt index) (held : Holds frames index frame) :
    frame.locals[0]? ≠ some (.uninitializedThis declared) := by
  obtain ⟨opcode, returned, present, kind⟩ := returns
  obtain ⟨after, done⟩ := consistent.accepts index _ frame present held
  obtain ⟨action, named, performs⟩ := (Action.transfer_follows index _ _ _).mp done
  cases named
  rw [Action.ofSimple_returns kind] at performs
  cases performs with
  | leave _ _ initialized => exact initialized constructs declared

end Setting

namespace Verifier
variable {verifier : Verifier} {method : Method} {frames : Array (Option Frame)}

theorem initialFrame_this {type : MethodType} {initial : Frame}
    (constructor : method.name = Step.constructorName) (receives : method.access.isStatic = false)
    (placed : verifier.initialFrame method type = .ok initial) :
    initial.locals[0]? = some (.uninitializedThis verifier.declaringType) := by
  obtain ⟨locals, laid, same⟩ := except_bind_ok.mp placed
  cases same
  simp only [receives, constructor, beq_self_eq_true, if_true, Bool.false_eq_true, if_false,
    List.singleton_append, placeArguments] at laid
  split at laid
  next =>
    obtain ⟨after, _, rfl⟩ := map_ok.mp laid
    rfl
  next => cases laid

/-- An accepted constructor calls a constructor on its receiver on every path to a return,
except where a path that has not done so overwrites the receiver's slot or ends at a return
whose frame has lost it in a join. -/
theorem constructor_calls_iff (code : method.access.hasNoCode = false)
    (constructor : method.name = Step.constructorName) (receives : method.access.isStatic = false)
    (accepted : verifier.analyze method = .ok frames) :
    ∃ setting, verifier.setting method = .ok setting ∧
      ((∀ moves index, setting.flow.Path moves index → setting.flow.ReturnsAt index →
          ∃ move ∈ moves, setting.CallsThis frames move) ↔
        ∀ moves index frame, setting.flow.Path moves index → setting.flow.ReturnsAt index →
          Holds frames index frame → (∀ move ∈ moves, ¬ setting.CallsThis frames move) →
            (∀ move ∈ moves, ¬ setting.flow.StoresFirst move) ∧ frame.locals[0]? ≠ some .empty) := by
  obtain ⟨setting, prepared, consistent, _⟩ :=
    analyze_ok (fun setting _ => setting.forced_carries) code accepted
  refine ⟨setting, prepared, ?_⟩
  obtain ⟨type, _, _, around, placed, _⟩ := setting_ok prepared
  have constructs : setting.around.isConstructor = true := by
    rw [← around]
    simp [surroundings, constructor]
  constructor
  · intro calls moves index frame path returns _ uncalled
    obtain ⟨move, listed, called⟩ := calls moves index path returns
    exact absurd called (uncalled move listed)
  · intro kept moves index path returns
    by_contra none
    have uncalled : ∀ move ∈ moves, ¬ setting.CallsThis frames move :=
      fun move listed called => none ⟨move, listed, called⟩
    obtain ⟨frame, held⟩ := consistent.reaches path
    obtain ⟨unstored, present⟩ := kept moves index frame path returns held uncalled
    have start := initialFrame_this constructor receives placed
    rcases consistent.untouched start path uncalled unstored held with first | lost
    · exact consistent.returns constructs returns held first
    · exact present lost

/-- A constructor without parameters of a class `Main`. -/
def constructorOf (instructions : Array Instruction) : Method where
  access := ⟨0⟩
  name := Step.constructorName
  descriptor := "()V"
  signature := none
  exceptions := []
  instructions
  ranges := []
  variableTable := none
  maxStack := 1
  maxLocals := 1

def constructorVerifier : Verifier := ⟨"Main", 1, 100⟩

/-- Calls a constructor on its receiver and returns. -/
def delegating : Method := constructorOf #[.variable .aload 0,
  .method .invokeSpecial objectName Step.constructorName "()V" false, .simple .returnVoid]

def delegatingFrames : Array (Option Frame) :=
  #[some ⟨[.uninitializedThis "Main"], []⟩,
    some ⟨[.uninitializedThis "Main"], [.uninitializedThis "Main"]⟩,
    some ⟨[.reference "Main"], []⟩]

theorem constructor_calls_iff_delegating :
    ∃ setting, constructorVerifier.setting delegating = .ok setting ∧
      ((∀ moves index, setting.flow.Path moves index → setting.flow.ReturnsAt index →
          ∃ move ∈ moves, setting.CallsThis delegatingFrames move) ↔
        ∀ moves index frame, setting.flow.Path moves index → setting.flow.ReturnsAt index →
          Holds delegatingFrames index frame →
            (∀ move ∈ moves, ¬ setting.CallsThis delegatingFrames move) →
              (∀ move ∈ moves, ¬ setting.flow.StoresFirst move) ∧
                frame.locals[0]? ≠ some .empty) := by
  have accepted : constructorVerifier.analyze delegating = .ok delegatingFrames := by decide +kernel
  exact constructor_calls_iff (by decide) rfl (by decide) accepted

/-- Overwrites its receiver and returns without any call. -/
def forgetful : Method :=
  constructorOf #[.simple .aconstNull, .variable .astore 0, .simple .returnVoid]

def forgetfulFrames : Array (Option Frame) :=
  #[some ⟨[.uninitializedThis "Main"], []⟩, some ⟨[.uninitializedThis "Main"], [.null]⟩,
    some ⟨[.null], []⟩]

theorem forgetful_accepted_without_call :
    constructorVerifier.analyze forgetful = .ok forgetfulFrames ∧
      ∃ setting, constructorVerifier.setting forgetful = .ok setting ∧
        ∃ moves index, setting.flow.Path moves index ∧ setting.flow.ReturnsAt index ∧
          ∀ move ∈ moves, ¬ setting.CallsThis forgetfulFrames move := by
  have accepted : constructorVerifier.analyze forgetful = .ok forgetfulFrames := by decide +kernel
  refine ⟨accepted, ?_⟩
  obtain ⟨setting, prepared, _⟩ :=
    analyze_ok (fun setting _ => setting.forced_carries) (by decide) accepted
  obtain ⟨_, _, built, _⟩ := setting_ok prepared
  have instructions : setting.flow.instructions = forgetful.instructions :=
    (Flow.ofMethod_ok built).1
  have first : setting.flow.Allows ⟨0, 1, false⟩ :=
    .goes (by rw [instructions]; rfl) (List.mem_singleton_self 1)
  have second : setting.flow.Allows ⟨1, 2, false⟩ :=
    .goes (by rw [instructions]; rfl) (List.mem_singleton_self 2)
  have path : setting.flow.Path [⟨1, 2, false⟩, ⟨0, 1, false⟩] 2 := .step (.step .start first) second
  refine ⟨setting, prepared, _, 2, path, ⟨.returnVoid, none, by rw [instructions]; rfl, rfl⟩, ?_⟩
  intro move listed called
  obtain ⟨_, owner, descriptor, onInterface, _, _, _, present, _⟩ := called
  rw [instructions] at present
  rcases List.mem_cons.mp listed with rfl | listed
  · cases present
  · obtain rfl := List.mem_singleton.mp listed
    cases present

end Verifier
end Bytecode.Verify
