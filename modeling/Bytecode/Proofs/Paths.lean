import Bytecode.Proofs.FrameOrder
import Bytecode.Proofs.StepResults
import Bytecode.Verify.Analysis

/-! Where control goes and what it carries, apart from the order in which the analysis
visits instructions. A handler is entered with the frame before the instruction that throws. -/

namespace Bytecode.Verify

def HandlerRange.Covers (handler : HandlerRange) (index : Nat) : Prop :=
  handler.start ≤ index ∧ index < handler.stop

structure Move where
  source : Nat
  target : Nat
  thrown : Bool
  deriving DecidableEq

namespace Flow

theorem mem_handlersAt {flow : Flow} {index : Nat} {handler : HandlerRange} :
    handler ∈ flow.handlersAt index ↔ handler ∈ flow.handlers ∧ handler.Covers index := by
  simp [handlersAt, HandlerRange.Covers]

/-- Markers do not throw. -/
inductive Allows (flow : Flow) : Move → Prop where
  | goes {instruction source target} (present : flow.instructions[source]? = some instruction)
      (next : target ∈ flow.successors source instruction) : Allows flow ⟨source, target, false⟩
  | throws {instruction source handler} (present : flow.instructions[source]? = some instruction)
      (ordinary : instruction.isMarker = false) (listed : handler ∈ flow.handlers)
      (covers : handler.Covers source) : Allows flow ⟨source, handler.entry, true⟩

/-- Moves from the first instruction to an index, the latest first. -/
inductive Path (flow : Flow) : List Move → Nat → Prop where
  | start : Path flow [] 0
  | step {moves move} (path : Path flow moves move.source) (allowed : flow.Allows move) :
      Path flow (move :: moves) move.target

/-- The frame that a move takes along from the frame before its source. -/
inductive Passes (flow : Flow) (around : Surroundings) (before : Frame) : Move → Frame → Prop where
  | goes {instruction source target after}
      (present : flow.instructions[source]? = some instruction)
      (done : (transfer around source instruction).run before = .ok ((), after))
      (next : target ∈ flow.successors source instruction) :
      Passes flow around before ⟨source, target, false⟩ after
  | throws {instruction source handler} (present : flow.instructions[source]? = some instruction)
      (ordinary : instruction.isMarker = false) (listed : handler ∈ flow.handlers)
      (covers : handler.Covers source) :
      Passes flow around before ⟨source, handler.entry, true⟩
        (before.withStack (.reference handler.caught))

variable {flow : Flow} {around : Surroundings} {before : Frame}

theorem Passes.allowed {move : Move} {incoming : Frame}
    (passes : flow.Passes around before move incoming) : flow.Allows move := by
  cases passes with
  | goes present _ next => exact .goes present next
  | throws present ordinary listed covers => exact .throws present ordinary listed covers

theorem edges_ok {index : Nat} {instruction : Instruction} {passed : List (Nat × Frame)}
    (present : flow.instructions[index]? = some instruction)
    (found : flow.edges around index instruction before = .ok passed) :
    (∃ after, (transfer around index instruction).run before = .ok ((), after)) ∧
      (∀ target ∈ flow.successors index instruction, target < flow.size) ∧
      ∀ target incoming, (target, incoming) ∈ passed ↔
        ∃ thrown, flow.Passes around before ⟨index, target, thrown⟩ incoming := by
  obtain ⟨⟨⟨⟩, after⟩, done, passes_on⟩ := except_bind_ok.mp found
  rw [mapError_ok] at done
  simp only at passes_on
  split at passes_on
  next => cases passes_on
  next inside =>
    cases passes_on
    refine ⟨⟨after, done⟩, ?_, ?_⟩
    · intro target next
      by_contra outside
      exact inside (List.any_eq_true.mpr ⟨target, next, by simpa using outside⟩)
    · intro target incoming
      constructor
      · intro listed
        rcases List.mem_append.mp listed with thrown | normal
        · split at thrown
          · cases thrown
          next ordinary =>
            obtain ⟨handler, covering, same⟩ := List.mem_map.mp thrown
            cases same
            obtain ⟨known, covers⟩ := mem_handlersAt.mp covering
            exact ⟨true, .throws present (by simpa using ordinary) known covers⟩
        · obtain ⟨next, inside, same⟩ := List.mem_map.mp normal
          cases same
          exact ⟨false, .goes present done inside⟩
      · intro passes
        obtain ⟨thrown, passes⟩ := passes
        apply List.mem_append.mpr
        cases passes with
        | goes also ran next =>
          obtain rfl := Option.some.inj (present.symm.trans also)
          rw [done] at ran
          cases ran
          exact .inr (List.mem_map.mpr ⟨target, next, rfl⟩)
        | throws also ordinary known covers =>
          obtain rfl := Option.some.inj (present.symm.trans also)
          left
          rw [if_neg (by simp [ordinary])]
          exact List.mem_map.mpr ⟨_, mem_handlersAt.mpr ⟨known, covers⟩, rfl⟩

end Flow

/-- A frame is known at an index. -/
def Holds (frames : Array (Option Frame)) (index : Nat) (frame : Frame) : Prop :=
  frames[index]? = some (some frame)

theorem holds_iff {frames : Array (Option Frame)} {index : Nat} {frame : Frame} :
    frames[index]?.join = some frame ↔ Holds frames index frame := by
  simp [Holds, Option.join_eq_some_iff]

theorem Holds.inside {frames : Array (Option Frame)} {index : Nat} {frame : Frame}
    (held : Holds frames index frame) : index < frames.size :=
  (Array.getElem?_eq_some_iff.mp held).1

theorem Holds.unique {frames : Array (Option Frame)} {index : Nat} {frame other : Frame}
    (held : Holds frames index frame) (also : Holds frames index other) : frame = other := by
  simpa using held.symm.trans also

/-- What the analysis of a method takes for granted: its flow, what surrounds its
instructions, and the frame it starts with. -/
structure Setting where
  flow : Flow
  around : Surroundings
  initial : Frame

/-- Frames that every instruction accepts and that cover whatever moves carry to them. -/
structure Setting.Consistent (setting : Setting) (frames : Array (Option Frame)) : Prop where
  size : frames.size = setting.flow.size
  start : ∃ frame, Holds frames 0 frame ∧ setting.initial.Below frame
  accepts : ∀ index instruction before, setting.flow.instructions[index]? = some instruction →
    Holds frames index before →
      ∃ after, (transfer setting.around index instruction).run before = .ok ((), after)
  inside : ∀ index instruction before, setting.flow.instructions[index]? = some instruction →
    Holds frames index before →
      ∀ target ∈ setting.flow.successors index instruction, target < setting.flow.size
  covers : ∀ move before incoming, Holds frames move.source before →
    setting.flow.Passes setting.around before move incoming →
      ∃ frame, Holds frames move.target frame ∧ incoming.Below frame

/-- Every frame known in one is below the frame known at the same index in the other. -/
def FramesBelow (lower upper : Array (Option Frame)) : Prop :=
  ∀ index frame, Holds lower index frame → ∃ above, Holds upper index above ∧ frame.Below above

namespace Verifier

/-- The part of an analysis before its first visit. -/
def setting (verifier : Verifier) (method : Method) : Except Rejection Setting := do
  if method.instructions.isEmpty then throw ⟨0, .fallsOffEnd⟩
  let type ← (MethodType.parse method.descriptor).mapError fun error =>
    ⟨0, .typeMismatch .methodDescriptor (.descriptor error)⟩
  let flow ← Flow.ofMethod method
  let initial ← (verifier.initialFrame method type).mapError (⟨0, ·⟩)
  return ⟨flow, verifier.surroundings method type, initial⟩

theorem analyze_of_hasNoCode (verifier : Verifier) {method : Method} (codeless : method.access.hasNoCode = true) :
    verifier.analyze method = .ok #[] := by
  simp [analyze, codeless]
  rfl

/-- Only code gets frames. -/
theorem code_of_holds {verifier : Verifier} {method : Method} {frames : Array (Option Frame)} {index : Nat}
    {frame : Frame} (accepted : verifier.analyze method = .ok frames) (held : Holds frames index frame) :
    method.access.hasNoCode = false := by
  cases codeless : method.access.hasNoCode with
  | false => rfl
  | true =>
    rw [analyze_of_hasNoCode verifier codeless] at accepted
    cases accepted
    cases held

theorem analyze_eq (verifier : Verifier) (method : Method) (code : method.access.hasNoCode = false) :
    verifier.analyze method = do
      let setting ← verifier.setting method
      let start : Progress := ⟨Array.replicate setting.flow.size none, []⟩
      let settled ← setting.flow.settle setting.around verifier.maxVisits verifier.maxVisits
        (start.update 0 setting.initial)
      return settled.frames := by
  unfold analyze setting
  rw [code]
  cases method.instructions.isEmpty with
  | true => rfl
  | false =>
    cases MethodType.parse method.descriptor with
    | error error => rfl
    | ok type =>
      cases Flow.ofMethod method with
      | error rejection => rfl
      | ok flow =>
        cases placed : verifier.initialFrame method type <;>
          simp [placed, Except.mapError, bind, Except.bind, pure, Except.pure]

end Verifier
end Bytecode.Verify
