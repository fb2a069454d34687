import Bytecode.Proofs.Failures
import Bytecode.Proofs.StackForms
import Bytecode.Proofs.Transfers

/-! Which rules an instruction can break. Unless its record is malformed, these are rules of the frame it
finds; the rules of the flow and the limit on visits are broken between instructions, not by them. -/

namespace Bytecode.Verify

/-- What is asked of the operands of a record, and not of a value. -/
def Expectation.ofRecord : Expectation → Bool
  | arrayTypeCode | fieldDescriptor | methodDescriptor => true
  | _ => false

/-- A rule of a frame: of its stack, of its locals, or of the types of what they hold. -/
inductive Violation.OfFrame : Violation → Prop where
  | underflow : OfFrame .stackUnderflow
  | overflow (limit : Nat) : OfFrame (.stackOverflow limit)
  | operand {expected : Expectation} (asked : expected.ofRecord = false) (found : Value) :
    OfFrame (.typeMismatch expected (.value found))
  | array (name : String) : OfFrame (.typeMismatch .referenceArray (.name name))
  | slot (slot count : Nat) : OfFrame (.localOutOfRange slot count)
  | unset (slot : Nat) : OfFrame (.emptyLocal slot)
  | result (expected : Option FieldType) (found : Opcode) : OfFrame (.returnMismatch expected found)
  | wide (opcode : Opcode) (found : Value) : OfFrame (.wideOperand opcode found)

end Verify

/-- The opcode of a record and the shape of the operands that stand beside it. -/
def Instruction.shape? : Instruction → Option (Opcode × OperandShape)
  | .simple opcode => some (opcode, .none)
  | .int opcode _ => some (opcode, .int)
  | .variable opcode _ => some (opcode, .slot)
  | .jump opcode _ => some (opcode, .jump)
  | .type opcode _ => some (opcode, .type)
  | .field opcode .. => some (opcode, .field)
  | _ => none

namespace Verify

/-- A rule that a malformed record breaks, whatever the frame. -/
inductive Violation.OfRecord : Instruction → Violation → Prop where
  | opcode {instruction opcode shape} (carries : instruction.shape? = some (opcode, shape))
    (foreign : opcode.operands ≠ shape) : OfRecord instruction (.foreignOpcode opcode)
  | arrayCode {operand} (unknown : Opcode.arrayDescriptor? operand = none) :
    OfRecord (.int .newArray operand) (.typeMismatch .arrayTypeCode (.code operand))
  | field {opcode owner name descriptor error} (malformed : FieldType.parse descriptor = .error error) :
    OfRecord (.field opcode owner name descriptor) (.typeMismatch .fieldDescriptor (.descriptor error))
  | method {opcode owner name descriptor onInterface error}
    (malformed : MethodType.parse descriptor = .error error) :
    OfRecord (.method opcode owner name descriptor onInterface)
      (.typeMismatch .methodDescriptor (.descriptor error))
  | callSite {name descriptor bootstrap arguments error}
    (malformed : MethodType.parse descriptor = .error error) :
    OfRecord (.callSite name descriptor bootstrap arguments)
      (.typeMismatch .methodDescriptor (.descriptor error))

open Violation (OfFrame OfRecord)

namespace Step
variable {α β : Type} {kind : Violation → Prop}

/-- Whatever the frame, a step breaks no rule but those of a kind. -/
def Breaks (kind : Violation → Prop) (step : Step α) : Prop := ∀ frame, Raises kind (step.run frame)

namespace Breaks

theorem bind {first : Step α} {next : α → Step β} (early : Breaks kind first)
    (late : ∀ value, Breaks kind (next value)) : Breaks kind (first >>= next) := by
  intro frame
  rw [StateT.run_bind]
  exact (early frame).bind fun (value, middle) => late value middle

theorem mono {weaker : Violation → Prop} {step : Step α} (breaks : Breaks kind step)
    (weaken : ∀ violation, kind violation → weaker violation) : Breaks weaker step :=
  fun frame => (breaks frame).mono weaken

theorem pure (value : α) : Breaks kind (Pure.pure value : Step α) := fun frame => .ok (value, frame)

theorem fail {violation : Violation} (known : kind violation) : Breaks kind (Step.fail violation : Step α) :=
  fun _ => .error known

theorem lift {found : Except Violation α} (raises : Raises kind found) : Breaks kind (found : Step α) :=
  fun frame => raises.bind fun value => .ok (value, frame)

end Breaks

theorem push_breaks (limit : Nat) (value : Value) : Breaks OfFrame (push limit value) := by
  intro frame
  simp only [push, StateT.run]
  split
  next => exact .ok _
  next => exact .error (.overflow limit)

theorem pushAll_breaks (limit : Nat) (values : List Value) : Breaks OfFrame (pushAll limit values) := by
  induction values with
  | nil => exact .pure ()
  | cons value rest ih => exact (push_breaks limit value).bind fun _ => ih

theorem pop_breaks : Breaks OfFrame pop := by
  intro frame
  simp only [pop, StateT.run]
  split
  next => exact .error .underflow
  next => exact .ok _

theorem popAs_breaks (demand : Demand) : Breaks OfFrame (popAs demand) := by
  apply pop_breaks.bind
  intro value
  split
  next => exact .pure value
  next => exact .fail (.operand (by cases demand <;> rfl) value)

theorem popEach_breaks (demands : List Demand) : Breaks OfFrame (popEach demands) := by
  induction demands with
  | nil => exact .pure ()
  | cons demand rest ih => exact (popAs_breaks demand).bind fun _ => ih

theorem popSingle_breaks (opcode : Opcode) : Breaks OfFrame (popSingle opcode) := by
  apply pop_breaks.bind
  intro value
  split
  next => exact .fail (.wide opcode value)
  next => exact .pure value

theorem load_breaks (slot : Nat) (wanted : Value) : Breaks OfFrame (load slot wanted) := by
  intro frame
  simp only [load, StateT.run]
  split
  next => exact .error (.slot slot _)
  next value _ =>
    split
    next => exact .error (.unset slot)
    next =>
      have checked (matching : Bool) : Raises OfFrame (if matching = true then .ok (value, frame)
          else .error (.typeMismatch (.value wanted) (.value value))) := by
        cases matching with
        | true => exact .ok _
        | false => exact .error (.operand rfl value)
      exact checked _

theorem store_breaks (slot : Nat) (value : Value) : Breaks OfFrame (store slot value) := by
  intro frame
  simp only [store, StateT.run]
  split
  next => exact .ok _
  next => exact .error (.slot slot _)

theorem arrayElement_raises (array : Value) : Raises OfFrame (arrayElement array) := by
  cases array with
  | null => exact .ok _
  | reference name =>
    simp only [arrayElement]
    split
    next =>
      split
      next =>
        split
        next => exact .ok _
        next => exact .error (.array name)
      next => exact .error (.array name)
    next => exact .ok _
  | _ => exact .error (.operand rfl _)

theorem effect_breaks (limit : Nat) (fixed : Effect) : Breaks OfFrame (fixed.run limit) := by
  apply (popEach_breaks fixed.pops).bind
  intro _
  split
  next value _ => exact push_breaks limit value
  next => exact .pure ()

theorem checkReceiver_breaks (around : Surroundings) : Breaks OfFrame (Action.checkReceiver around) := by
  have found : Breaks OfFrame (get : Step Frame) := fun frame => .ok (frame, frame)
  apply found.bind
  intro frame
  split
  next => exact .fail (.operand rfl _)
  next => exact .pure ()

theorem leave_breaks (around : Surroundings) (opcode : Opcode) (returned : Option Demand) :
    Breaks OfFrame (leave around opcode returned) := by
  by_cases declared : returned = around.result.map Demand.ofType
  · rw [declared, Action.leave_eq]
    exact (popEach_breaks _).bind fun _ => checkReceiver_breaks around
  · rw [leave, if_neg declared]
    exact .fail (.result _ _)

/-- An opcode that moves values of any type meets values of the wrong width at worst. -/
theorem shuffle_breaks (limit : Nat) {opcode : Opcode} (moves : StackForm.ofOpcode opcode ≠ []) :
    Breaks OfFrame (shuffle limit opcode) := by
  have single {next : Value → Step Unit} (rest : ∀ value, Breaks OfFrame (next value)) :
      Breaks OfFrame (popSingle opcode >>= next) := (popSingle_breaks opcode).bind rest
  have either {wide narrow : Value → Step Unit} (first : ∀ value, Breaks OfFrame (wide value))
      (second : ∀ value, Breaks OfFrame (narrow value)) :
      Breaks OfFrame (pop >>= fun top => if top.isWide = true then wide top else narrow top) := by
    apply pop_breaks.bind
    intro value
    split
    next => exact first value
    next => exact second value
  have pushed (values : List Value) : Breaks OfFrame (pushAll limit values) := pushAll_breaks limit values
  cases opcode
  case pop => exact single fun _ => .pure ()
  case pop2 => exact either (fun _ => .pure ()) fun _ => single fun _ => .pure ()
  case dup => exact single fun _ => pushed _
  case dupX1 | swap => exact single fun _ => single fun _ => pushed _
  case dupX2 => exact single fun _ => either (fun _ => pushed _) fun _ => single fun _ => pushed _
  case dup2 => exact either (fun _ => pushed _) fun _ => single fun _ => pushed _
  case dup2X1 =>
    apply pop_breaks.bind
    intro first
    apply single
    intro second
    split
    next => exact pushed _
    next => exact single fun _ => pushed _
  case dup2X2 =>
    apply either
    · exact fun _ => either (fun _ => pushed _) fun _ => single fun _ => pushed _
    · exact fun _ => single fun _ => either (fun _ => pushed _) fun _ => single fun _ => pushed _
  all_goals exact absurd rfl moves

theorem shuffle_foreign (limit : Nat) {opcode : Opcode} (other : StackForm.ofOpcode opcode = []) :
    shuffle limit opcode = fail (.foreignOpcode opcode) := by
  cases opcode <;> first | rfl | cases other

/-- An opcode that is written without operands has an effect of its own or moves stack values. -/
theorem plain_handled (opcode : Opcode) (plain : opcode.operands = .none) :
    (Effect.ofSimple? opcode).isSome ∨ (Effect.ofReturn? opcode).isSome ∨ opcode = .aaload ∨
      StackForm.ofOpcode opcode ≠ [] := by
  revert plain
  cases opcode <;> decide

end Step

/-- What an instruction at an index can fail with, whatever the frame before it. -/
abbrev Violation.OfInstruction (instruction : Instruction) (violation : Violation) : Prop :=
  OfFrame violation ∨ OfRecord instruction violation

open Violation (OfInstruction)

namespace Step
variable (around : Surroundings) (limit : Nat) (opcode : Opcode)

/-- Steps that break rules of the frame alone. -/
theorem Breaks.instruction {α : Type} {step : Step α} {instruction : Instruction}
    (breaks : Breaks OfFrame step) : Breaks (OfInstruction instruction) step :=
  breaks.mono fun _ => .inl

theorem foreign_breaks {instruction : Instruction} {shape : OperandShape}
    (carries : instruction.shape? = some (opcode, shape)) (foreign : opcode.operands ≠ shape) :
    Breaks (OfInstruction instruction) (fail (.foreignOpcode opcode) : Step Unit) :=
  .fail (.inr (.opcode carries foreign))

theorem simple_breaks : Breaks (OfInstruction (.simple opcode)) (simple around opcode) := by
  unfold simple
  cases fixed : Effect.ofSimple? opcode with
  | some effect => exact (effect_breaks _ effect).instruction
  | none =>
    cases returns : Effect.ofReturn? opcode with
    | some returned => exact (leave_breaks around opcode returned).instruction
    | none =>
      simp only
      split
      next =>
        apply Breaks.instruction
        apply (popAs_breaks _).bind
        intro _
        apply (popAs_breaks _).bind
        intro array
        exact (Breaks.lift (arrayElement_raises array)).bind fun element => push_breaks _ element
      next other =>
        by_cases moves : StackForm.ofOpcode opcode = []
        · rw [shuffle_foreign _ moves]
          apply foreign_breaks _ rfl
          intro plain
          have handled := plain_handled opcode plain
          simp [fixed, returns, other, moves] at handled
        · exact (shuffle_breaks _ moves).instruction

theorem int_breaks (operand : Int32) : Breaks (OfInstruction (.int opcode operand)) (int limit opcode operand) := by
  unfold int
  split
  next => exact (push_breaks _ _).instruction
  next => exact (push_breaks _ _).instruction
  next =>
    apply (popAs_breaks _).instruction.bind
    intro _
    cases known : Opcode.arrayDescriptor? operand with
    | some descriptor => exact (push_breaks _ _).instruction
    | none => exact .fail (.inr (.arrayCode known))
  next byte short array =>
    apply foreign_breaks _ rfl
    cases opcode <;> first | contradiction | decide

theorem localAccess_breaks (slot : UInt16) :
    Breaks (OfInstruction (.variable opcode slot)) (localAccess limit opcode slot.toNat) := by
  unfold localAccess
  split
  next =>
    apply Breaks.instruction
    apply pop_breaks.bind
    intro value
    split
    next => exact store_breaks _ _
    next => exact .fail (.operand rfl _)
  next => exact ((load_breaks _ _).bind fun _ => .pure ()).instruction
  next =>
    apply Breaks.instruction
    split
    next => exact (popAs_breaks _).bind fun _ => store_breaks _ _
    next => exact (load_breaks _ _).bind fun _ => push_breaks _ _
  next opcode _ _ store ret unknown =>
    apply foreign_breaks _ rfl
    cases opcode <;> first | contradiction | decide

theorem type_breaks (site : Nat) (name : String) :
    Breaks (OfInstruction (.type opcode name)) (type limit site opcode name) := by
  have replaced (demand : Demand) (value : Value) :
      Breaks OfFrame (popAs demand >>= fun _ => push limit value) :=
    (popAs_breaks demand).bind fun _ => push_breaks _ _
  unfold type
  split
  next => exact (push_breaks _ _).instruction
  next => exact (replaced _ _).instruction
  next => exact (replaced _ _).instruction
  next => exact (replaced _ _).instruction
  next new array cast test =>
    apply foreign_breaks _ rfl
    cases opcode <;> first | contradiction | decide

theorem field_breaks (owner name descriptor : String) :
    Breaks (OfInstruction (.field opcode owner name descriptor)) (field limit opcode descriptor) := by
  unfold field
  split
  next error malformed => exact .fail (.inr (.field malformed))
  next type _ =>
    split
    next => exact (push_breaks _ _).instruction
    next => exact (popEach_breaks _).instruction
    next => exact ((popAs_breaks _).bind fun _ => push_breaks _ _).instruction
    next => exact (popEach_breaks _).instruction
    next readStatic writeStatic read write =>
      apply foreign_breaks _ rfl
      cases opcode <;> first | contradiction | decide

theorem receive_breaks (constructing : Bool) (owner : String) :
    Breaks OfFrame (receive around constructing owner) := by
  have replaced (target replacement : Value) : Breaks OfFrame (initializeAll target replacement) :=
    fun frame => .ok ((), frame.replace target replacement)
  apply (popAs_breaks _).bind
  intro receiver
  split
  next =>
    split
    next => exact replaced _ _
    next => exact replaced _ _
    next => exact .fail (.operand rfl _)
  next =>
    split
    next => exact .fail (.operand rfl _)
    next => exact .pure ()

theorem call_breaks {instruction : Instruction} (descriptor : String) {takeReceiver : Step Unit}
    (taken : Breaks OfFrame takeReceiver)
    (malformed : ∀ error, MethodType.parse descriptor = .error error →
      OfRecord instruction (.typeMismatch .methodDescriptor (.descriptor error))) :
    Breaks (OfInstruction instruction) (call limit descriptor takeReceiver) := by
  unfold call
  split
  next error parsed => exact .fail (.inr (malformed error parsed))
  next type _ =>
    apply Breaks.instruction
    apply (popEach_breaks _).bind
    intro _
    apply taken.bind
    intro _
    cases type.result with
    | some result => exact push_breaks _ _
    | none => exact .pure ()

end Step

/-- The rules of the flow and the limit on visits are not among those that an instruction breaks. -/
theorem transfer_breaks (around : Surroundings) (index : Nat) (instruction : Instruction) :
    Step.Breaks (OfInstruction instruction) (transfer around index instruction) := by
  cases instruction with
  | label | line => exact .pure ()
  | simple opcode => exact Step.simple_breaks around opcode
  | int opcode operand => exact Step.int_breaks _ opcode operand
  | «variable» opcode slot => exact Step.localAccess_breaks _ opcode slot
  | increment => exact ((Step.load_breaks _ _).bind fun _ => .pure ()).instruction
  | jump opcode target =>
    simp only [transfer]
    cases known : Effect.ofJump? opcode with
    | some effect => exact (Step.effect_breaks _ effect).instruction
    | none =>
      apply Step.foreign_breaks _ rfl
      cases opcode <;> first | contradiction | decide
  | constant => exact (Step.push_breaks _ _).instruction
  | type opcode name => exact Step.type_breaks _ opcode _ name
  | field opcode owner name descriptor => exact Step.field_breaks _ opcode owner name descriptor
  | method opcode owner name descriptor =>
    refine Step.call_breaks _ descriptor ?_ fun _ => .method
    split
    next => exact .pure ()
    next => exact Step.receive_breaks _ _ _
  | callSite name descriptor => exact Step.call_breaks _ descriptor (.pure ()) fun _ => .callSite
  | tableSwitch | lookupSwitch => exact (Step.popEach_breaks _).instruction
  | newArrays => exact ((Step.popEach_breaks _).bind fun _ => Step.push_breaks _ _).instruction

end Bytecode.Verify
