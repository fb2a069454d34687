import Bytecode.Proofs.Acceptance
import Bytecode.Proofs.LineMarkers
import Bytecode.Proofs.RunStages
import Bytecode.Proofs.VisitBound

/-! How tall stacks get. Pushes keep within the limit, merges leave the height alone, and a handler is entered
with one slot whatever the limit is. So only a limit of no slots is exceeded, and exactly when control
reaches an instruction that can throw to a handler. -/

namespace Bytecode
open Verify (Holds Frame position? throwableName)

/-- An exception range covers an index, by where its labels stand. -/
def ExceptionRange.Covers (range : ExceptionRange) (instructions : Array Instruction) (index : Nat) : Prop :=
  ∃ start stop, position? instructions range.start = some start ∧ position? instructions range.stop = some stop ∧
    start ≤ index ∧ index < stop

/-- Some range covers an instruction that has a frame and is no marker. -/
def Method.Catches (method : Method) (frames : Array (Option Frame)) : Prop :=
  ∃ index instruction frame, Holds frames index frame ∧ method.instructions[index]? = some instruction ∧
    instruction.isMarker = false ∧ ∃ range ∈ method.ranges, range.Covers method.instructions index

namespace Verify

/-- Control comes to an instruction that can throw to a handler. -/
def Flow.Throws (flow : Flow) : Prop :=
  ∃ moves move, flow.Path moves move.source ∧ flow.Allows move ∧ move.thrown = true

/-- The ranges of a method and their handlers cover the same instructions. -/
theorem Flow.covers_iff {method : Method} {flow : Flow} (built : Flow.ofMethod method = .ok flow) (index : Nat) :
    (∃ handler ∈ flow.handlers, handler.Covers index) ↔
      ∃ range ∈ method.ranges, range.Covers method.instructions index := by
  obtain ⟨_, _, resolved⟩ := ofMethod_iff.mp built
  constructor
  · rintro ⟨handler, listed, below, above⟩
    obtain ⟨⟨range, number⟩, among, found⟩ := forall₂_mem_right resolved listed
    obtain ⟨start, stop, _⟩ := HandlerRange.ofRange_ok.mp found
    exact ⟨range, List.fst_mem_of_mem_zipIdx among, _, _, start, stop, below, above⟩
  · rintro ⟨range, listed, start, stop, begins, ends, below, above⟩
    obtain ⟨number, place⟩ := List.mem_iff_getElem?.mp listed
    have numbered : method.ranges.zipIdx[number]? = some (range, number) := by simp [place]
    obtain ⟨handler, among, found⟩ := forall₂_held resolved numbered
    obtain ⟨first, last, _⟩ := HandlerRange.ofRange_ok.mp found
    obtain rfl := Option.some.inj (first.symm.trans begins)
    obtain rfl := Option.some.inj (last.symm.trans ends)
    exact ⟨handler, List.mem_of_getElem? among, below, above⟩

namespace Setting
variable {setting : Setting}

/-- A stack taller than the limit goes back to a throw. -/
theorem heights_carry (empty : setting.initial.stack = []) : setting.Carries fun index frame =>
    frame.locals.length = setting.initial.locals.length ∧ (∃ moves, setting.flow.Path moves index) ∧
      (stackHeight frame.stack ≤ setting.around.maxStack ∨ setting.flow.Throws) where
  initial := ⟨rfl, ⟨[], .start⟩, .inl (by simp [empty, stackHeight])⟩
  width _ _ fits := fits.1
  moves := by
    rintro move before incoming ⟨width, ⟨moves, path⟩, height⟩ passes
    refine ⟨passes.width.trans width, ⟨move :: moves, .step path passes.allowed⟩, ?_⟩
    cases passes with
    | goes _ done =>
      obtain ⟨action, _, performs⟩ := (Action.transfer_follows _ _ _ _).mp done
      have taller := performs.height
      exact height.imp (fun low => by omega) id
    | throws present ordinary listed covers =>
      exact .inr ⟨moves, _, path, .throws present ordinary listed covers, rfl⟩
  merges := by
    rintro index held incoming merged ⟨width, path, height⟩ ⟨also, _⟩ joined
    obtain ⟨lower, _⟩ := Frame.merge_ok (width.trans also.symm) joined
    refine ⟨(Frame.merge_locals_length joined).trans width, path, ?_⟩
    rw [← stackHeight_below lower.stack]
    exact height

/-- What is thrown takes one slot at its handler. -/
theorem Consistent.thrown_height {frames : Array (Option Frame)} (consistent : setting.Consistent frames)
    (throws : setting.flow.Throws) : ∃ index frame, Holds frames index frame ∧ frame.stackSize = 1 := by
  obtain ⟨moves, move, path, allowed, thrown⟩ := throws
  obtain ⟨before, held⟩ := consistent.reaches path
  cases allowed with
  | goes => cases thrown
  | throws present ordinary listed covers =>
    obtain ⟨frame, kept, below⟩ := consistent.covers ⟨_, _, true⟩ before _ held
      (.throws present ordinary listed covers)
    exact ⟨_, frame, kept, (stackHeight_below below.stack).symm⟩

end Setting

namespace Verifier
variable {verifier : Verifier} {method : Method} {frames : Array (Option Frame)}

theorem catches_iff {setting : Setting} (prepared : verifier.setting method = .ok setting)
    (consistent : setting.Consistent frames)
    (reached : ∀ index frame, Holds frames index frame → ∃ moves, setting.flow.Path moves index) :
    method.Catches frames ↔ setting.flow.Throws := by
  obtain ⟨_, _, built, _⟩ := setting_ok prepared
  have instructions := (Flow.ofMethod_ok built).1
  constructor
  · rintro ⟨index, instruction, frame, held, present, ordinary, covered⟩
    obtain ⟨moves, path⟩ := reached index frame held
    obtain ⟨handler, listed, covers⟩ := (Flow.covers_iff built index).mpr covered
    rw [← instructions] at present
    exact ⟨moves, _, path, .throws present ordinary listed covers, rfl⟩
  · rintro ⟨moves, move, path, allowed, thrown⟩
    obtain ⟨frame, held⟩ := consistent.reaches path
    cases allowed with
    | goes => cases thrown
    | throws present ordinary listed covers =>
      rw [instructions] at present
      exact ⟨_, _, frame, held, present, ordinary, (Flow.covers_iff built _).mp ⟨_, listed, covers⟩⟩

/-- The stacks of an accepted method take at most the slots of the limit, or one slot, and keep within the limit
unless it is zero and something can be caught. -/
theorem stack_bounded_iff (accepted : verifier.analyze method = .ok frames) :
    (∀ index frame, Holds frames index frame → frame.stackSize ≤ max 1 verifier.maxStack.toNat) ∧
      ((∀ index frame, Holds frames index frame → frame.stackSize ≤ verifier.maxStack.toNat) ↔
        (verifier.maxStack = 0 → ¬ method.Catches frames)) := by
  cases code : method.access.hasNoCode with
  | true =>
    rw [analyze_of_hasNoCode verifier code] at accepted
    cases accepted
    have nothing (index : Nat) (frame : Frame) : ¬ Holds #[] index frame := by simp [Holds]
    refine ⟨fun index frame held => absurd held (nothing index frame), fun _ _ => ?_,
      fun _ index frame held => absurd held (nothing index frame)⟩
    rintro ⟨index, _, frame, held, _⟩
    exact nothing index frame held
  | false =>
    have empty (setting : Setting) (prepared : verifier.setting method = .ok setting) :
        setting.initial.stack = [] := by
      obtain ⟨_, _, _, _, placed, _⟩ := setting_ok prepared
      exact (initialFrame_ok placed).2
    obtain ⟨setting, prepared, consistent, known⟩ := analyze_ok (fun setting prepared =>
      (Setting.bounded_carries (empty setting prepared)).and (Setting.heights_carry (empty setting prepared)))
      code accepted
    obtain ⟨_, _, _, around, _⟩ := setting_ok prepared
    have limit : setting.around.maxStack = verifier.maxStack.toNat := by
      rw [← around]
      rfl
    rw [limit] at known
    have catches := catches_iff prepared consistent fun index frame held => (known index frame held).2.2.1
    have within (index : Nat) (frame : Frame) (held : Holds frames index frame) :
        frame.stackSize ≤ max 1 verifier.maxStack.toNat := by
      have height := (known index frame held).1.height
      rwa [limit] at height
    refine ⟨within, ?_, ?_⟩
    · intro bounded none catching
      obtain ⟨index, frame, held, one⟩ := consistent.thrown_height (catches.mp catching)
      have tall := bounded index frame held
      rw [one, none] at tall
      exact absurd tall (by decide)
    · intro quiet index frame held
      rcases (known index frame held).2.2.2 with low | throws
      · exact low
      · have some : verifier.maxStack ≠ 0 := fun none => quiet none (catches.mpr throws)
        have positive : verifier.maxStack.toNat ≠ 0 := fun none => some (UInt16.toNat_inj.mp none)
        have height := within index frame held
        omega

/-- Does nothing, and catches what is thrown on the way. -/
def catching : Method where
  access := ⟨8⟩
  name := "catching"
  descriptor := "()V"
  signature := none
  exceptions := []
  instructions := #[.label ⟨0⟩, .simple .nop, .label ⟨1⟩, .simple .returnVoid, .label ⟨2⟩, .simple .returnVoid]
  ranges := [⟨⟨0⟩, ⟨1⟩, ⟨2⟩, none⟩]
  variableTable := none
  maxStack := 0
  maxLocals := 0

def catchingFrames : Array (Option Frame) :=
  #[some ⟨[], []⟩, some ⟨[], []⟩, some ⟨[], []⟩, some ⟨[], []⟩, some ⟨[], [.reference throwableName]⟩,
    some ⟨[], [.reference throwableName]⟩]

theorem stack_bounded_iff_catching : (⟨"Main", 1, 100⟩ : Verifier).analyze catching = .ok catchingFrames ∧
    ∀ index frame, Holds catchingFrames index frame → frame.stackSize ≤ 1 := by
  have accepted : (⟨"Main", 1, 100⟩ : Verifier).analyze catching = .ok catchingFrames := by decide +kernel
  exact ⟨accepted, (stack_bounded_iff accepted).2.mpr fun none => absurd none (by decide)⟩

/-- With no room on the stack there is still a thrown object at the handler. -/
theorem catching_exceeds_limit : (⟨"Main", 0, 100⟩ : Verifier).analyze catching = .ok catchingFrames ∧
    Holds catchingFrames 4 ⟨[], [.reference throwableName]⟩ ∧
    ¬ (⟨[], [.reference throwableName]⟩ : Frame).stackSize ≤ (0 : UInt16).toNat :=
  ⟨by decide +kernel, rfl, by decide⟩

end Verifier
end Verify
end Bytecode
