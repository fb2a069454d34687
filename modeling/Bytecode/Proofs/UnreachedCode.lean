import Bytecode.Proofs.LineMarkers
import Bytecode.Proofs.WellFormedCode

/-! Code that control does not reach. An instruction there is never executed, so a verification comes to
the same frames, in the same visits, with another one in its place. Only labels and calls of subroutines
are looked up in the whole of the code, and what is looked up may neither go nor come. -/

namespace Bytecode
open List

/-- What the verifier looks up wherever it stands: a label, for its position, and the call of a
subroutine, for the place that it returns to. -/
def Instruction.isLandmark : Instruction → Bool
  | .label _ | .jump .jsr _ => true
  | _ => false

/-- The method with another instruction at an index. -/
def Method.replace (method : Method) (index : Nat) (instruction : Instruction) : Method :=
  { method with instructions := method.instructions.setIfInBounds index instruction }

/-- What takes nothing from either of two entries takes the same from a list with one in the place of
the other. -/
theorem filterMap_set {α β : Type} {pick : α × Nat → Option β} {entries : List α} {index : Nat} {old new : α}
    (stands : entries[index]? = some old) (before : pick (old, index) = none) (after : pick (new, index) = none) :
    (entries.set index new).zipIdx.filterMap pick = entries.zipIdx.filterMap pick := by
  obtain ⟨inside, rfl⟩ := List.getElem?_eq_some_iff.mp stands
  have whole : entries.take index ++ entries[index] :: entries.drop (index + 1) = entries := by
    rw [← List.drop_eq_getElem_cons inside, List.take_append_drop]
  have length : (entries.take index).length = index := List.length_take_of_le (Nat.le_of_lt inside)
  conv => rhs; rw [← whole]
  rw [List.set_eq_take_append_cons_drop, if_pos inside]
  simp only [List.zipIdx_append, List.zipIdx_cons, List.filterMap_append, length, Nat.zero_add,
    List.filterMap_cons_none before, List.filterMap_cons_none after]

namespace Verify

section
variable {instructions : Array Instruction} {index : Nat} {old new : Instruction}
  (stands : instructions[index]? = some old) (plain : old.isLandmark = false) (fresh : new.isLandmark = false)
include stands plain fresh

theorem position?_set (label : Label) :
    position? (instructions.setIfInBounds index new) label = position? instructions label := by
  have apart {instruction : Instruction} (plain : instruction.isLandmark = false) :
      Option.guard (fun entry : Instruction × Nat => entry.1 == .label label) (instruction, index) = none := by
    cases instruction with
    | label => cases plain
    | _ => rfl
  rw [← Array.getElem?_toList] at stands
  unfold position?
  simp only [← List.filterMap_eq_filter, Array.toList_setIfInBounds]
  rw [filterMap_set stands (apart plain) (apart fresh)]

theorem HandlerRange.ofRange_set :
    HandlerRange.ofRange (instructions.setIfInBounds index new) = HandlerRange.ofRange instructions := by
  funext number range
  simp only [ofRange, position?_set stands plain fresh]

theorem unknownLabel?_set (placed : ∀ label ∈ new.references, .label label ∈ instructions)
    (known : unknownLabel? instructions = none) :
    unknownLabel? (instructions.setIfInBounds index new) = none := by
  rw [unknownLabel?_eq_none] at known ⊢
  intro instruction listed label refers
  rw [position?_set stands plain fresh, Option.isSome_iff_exists]
  rw [← Array.mem_toList_iff, Array.toList_setIfInBounds] at listed
  rcases List.mem_or_eq_of_mem_set listed with there | rfl
  · exact Option.isSome_iff_exists.mp (known instruction (Array.mem_toList_iff.mp there) label refers)
  · exact Label.placed_of_mem (placed label refers)

end

namespace Flow

/-- The flow with another instruction at an index. -/
def replace (flow : Flow) (index : Nat) (instruction : Instruction) : Flow :=
  { flow with instructions := flow.instructions.setIfInBounds index instruction }

variable {flow : Flow} {around : Surroundings} {index : Nat} {old new : Instruction}

@[simp] theorem size_replace : (flow.replace index new).size = flow.size :=
  Array.size_setIfInBounds

theorem visit_unknown {progress : Progress} {source : Nat} (unknown : progress.frames[source]?.join = none) :
    flow.visit around progress source = .ok progress := by
  unfold visit
  rw [unknown]
  cases flow.instructions[source]? <;> rfl

theorem ofMethod_replace {method : Method} (stands : method.instructions[index]? = some old)
    (plain : old.isLandmark = false) (fresh : new.isLandmark = false)
    (placed : ∀ label ∈ new.references, .label label ∈ method.instructions)
    (built : Flow.ofMethod method = .ok flow) :
    Flow.ofMethod (method.replace index new) = .ok (flow.replace index new) := by
  obtain ⟨known, same, resolved⟩ := ofMethod_iff.mp built
  apply ofMethod_iff.mpr
  refine ⟨unknownLabel?_set stands plain fresh placed known, ?_, ?_⟩
  · rw [replace, same]
    rfl
  · rw [Method.replace, HandlerRange.ofRange_set stands plain fresh]
    exact resolved

section
variable (stands : flow.instructions[index]? = some old) (plain : old.isLandmark = false)
  (fresh : new.isLandmark = false)
include stands plain fresh

theorem target_replace : (flow.replace index new).target = flow.target := by
  funext label
  rw [target, size_replace, replace, position?_set stands plain fresh]
  rfl

theorem subroutineReturns_replace : (flow.replace index new).subroutineReturns = flow.subroutineReturns := by
  rw [← Array.getElem?_toList] at stands
  unfold subroutineReturns
  rw [replace, Array.toList_setIfInBounds]
  apply filterMap_set stands
  · unfold Instruction.isLandmark at plain
    grind
  · unfold Instruction.isLandmark at fresh
    grind

theorem successors_replace : (flow.replace index new).successors = flow.successors := by
  funext source instruction
  unfold successors
  rw [target_replace stands plain fresh, subroutineReturns_replace stands plain fresh]

theorem edges_replace (source : Nat) (instruction : Instruction) (before : Frame) :
    (flow.replace index new).edges around source instruction before =
      flow.edges around source instruction before := by
  unfold edges
  rw [successors_replace stands plain fresh, size_replace]
  rfl

/-- A visit of another instruction is the same, and so is one that finds no frame. -/
theorem visit_replace {progress : Progress} {source : Nat}
    (elsewhere : source = index → progress.frames[source]?.join = none) :
    (flow.replace index new).visit around progress source = flow.visit around progress source := by
  by_cases here : source = index
  · rw [visit_unknown (elsewhere here), visit_unknown (elsewhere here)]
  · have kept : (flow.replace index new).instructions[source]? = flow.instructions[source]? :=
      Array.getElem?_setIfInBounds_ne (Ne.symm here)
    unfold visit
    simp only [kept, edges_replace stands plain fresh]
    rfl

end

end Flow

/-- Some frame is known at an index. -/
def Progress.Reaches (progress : Progress) (index : Nat) : Prop := ∃ frame, Holds progress.frames index frame

theorem Progress.not_reaches_iff {progress : Progress} {index : Nat} :
    ¬ progress.Reaches index ↔ progress.frames[index]?.join = none := by
  rw [Option.eq_none_iff_forall_ne_some, Reaches, not_exists]
  simp only [ne_eq, holds_iff]

section
variable {flow : Flow} {around : Surroundings} {progress next : Progress} {index : Nat}

theorem Progress.Reaches.update (reached : progress.Reaches index) (target : Nat) (frame : Frame) :
    (progress.update target frame).Reaches index := by
  obtain ⟨held, known⟩ := reached
  by_cases same : index = target
  · subst same
    exact ⟨frame, update_holds known.inside⟩
  · exact ⟨held, (update_holds_other same).mpr known⟩

theorem Progress.Reaches.arrive {source target : Nat} {incoming : Frame} (reached : progress.Reaches index)
    (arrived : progress.arrive flow source target incoming = .ok next) : next.Reaches index := by
  rcases arrive_ok arrived with ⟨_, rfl⟩ | ⟨held, merged, _, _, ⟨_, rfl⟩ | ⟨_, rfl⟩⟩
  · exact reached.update target incoming
  · exact reached
  · exact reached.update target merged

theorem Progress.Reaches.visit {source : Nat} (reached : progress.Reaches index)
    (visited : flow.visit around progress source = .ok next) : next.Reaches index := by
  unfold Flow.visit at visited
  split at visited
  next =>
    obtain ⟨passed, _, arrived⟩ := except_bind_ok.mp visited
    apply foldlM_holds (fun progress => progress.Reaches index) reached _ arrived
    intro before edge after _ reached arrived
    exact reached.arrive arrived
  next =>
    cases visited
    exact reached

theorem Progress.Reaches.settle {limit visits : Nat} (reached : progress.Reaches index)
    (settled : flow.settle around limit visits progress = .ok next) : next.Reaches index := by
  induction visits generalizing progress with
  | zero =>
    unfold Flow.settle at settled
    split at settled
    next =>
      cases settled
      exact reached
    next => cases settled
  | succ visits ih =>
    unfold Flow.settle at settled
    split at settled
    next =>
      cases settled
      exact reached
    next source rest queue =>
      obtain ⟨middle, visited, settled⟩ := except_bind_ok.mp settled
      have waiting : Progress.Reaches { progress with queue := rest } index := reached
      exact ih (waiting.visit visited) settled

/-- A run that never reaches the index is the same, visit by visit. -/
theorem Flow.settle_replace {old new : Instruction} {limit visits : Nat}
    (stands : flow.instructions[index]? = some old) (plain : old.isLandmark = false)
    (fresh : new.isLandmark = false) (settled : flow.settle around limit visits progress = .ok next)
    (unreached : ¬ next.Reaches index) :
    (flow.replace index new).settle around limit visits progress = .ok next := by
  induction visits generalizing progress with
  | zero =>
    rw [← settled, settle, settle]
  | succ visits ih =>
    unfold settle at settled ⊢
    cases queue : progress.queue with
    | nil =>
      rw [queue] at settled
      exact settled
    | cons source rest =>
      rw [queue] at settled
      obtain ⟨middle, visited, later⟩ := except_bind_ok.mp settled
      -- What is reached now stays reached to the end of the run.
      have elsewhere : source = index → progress.frames[source]?.join = none := by
        intro here
        rw [here]
        apply Progress.not_reaches_iff.mp
        intro reached
        have waiting : Progress.Reaches { progress with queue := rest } index := reached
        exact unreached ((waiting.visit visited).settle later)
      have same : (flow.replace index new).visit around { progress with queue := rest } source =
          flow.visit around { progress with queue := rest } source := visit_replace stands plain fresh elsewhere
      simp only [same]
      exact except_bind_ok.mpr ⟨middle, visited, ih later⟩

end

namespace Verifier
variable {verifier : Verifier} {method : Method} {index : Nat} {old new : Instruction}

theorem setting_replace {setting : Setting} (stands : method.instructions[index]? = some old)
    (plain : old.isLandmark = false) (fresh : new.isLandmark = false)
    (placed : ∀ label ∈ new.references, .label label ∈ method.instructions)
    (prepared : verifier.setting method = .ok setting) :
    verifier.setting (method.replace index new) = .ok { setting with flow := setting.flow.replace index new } := by
  obtain ⟨nonempty, type, parsed, built, around, initial⟩ := setting_iff.mp prepared
  apply setting_iff.mpr
  refine ⟨?_, type, parsed, Flow.ofMethod_replace stands plain fresh placed built, around, initial⟩
  rw [← nonempty, Method.replace, Bool.eq_iff_iff, Array.isEmpty_iff_size_eq_zero,
    Array.isEmpty_iff_size_eq_zero, Array.size_setIfInBounds]

/-- In an accepted method another instruction can stand wherever no frame is known, unless the verifier
looks up one of the two: the frames are the same. -/
theorem analyze_replace_unreached {frames : Array (Option Frame)} (accepted : verifier.analyze method = .ok frames)
    (unreached : frames[index]? = some none) (stands : method.instructions[index]? = some old)
    (plain : old.isLandmark = false) (fresh : new.isLandmark = false)
    (placed : ∀ label ∈ new.references, .label label ∈ method.instructions) :
    verifier.analyze (method.replace index new) = .ok frames := by
  cases code : method.access.hasNoCode with
  | true =>
    rw [analyze_of_hasNoCode _ code] at accepted
    cases accepted
    cases unreached
  | false =>
    rw [analyze_eq _ method code] at accepted
    rw [analyze_eq _ (method.replace index new) code]
    obtain ⟨setting, prepared, accepted⟩ := except_bind_ok.mp accepted
    obtain ⟨settled, run, accepted⟩ := except_bind_ok.mp accepted
    cases accepted
    obtain ⟨_, _, built, _⟩ := setting_ok prepared
    have never : ¬ settled.Reaches index := by
      apply Progress.not_reaches_iff.mpr
      rw [unreached]
      rfl
    refine except_bind_ok.mpr ⟨_, setting_replace stands plain fresh placed prepared, ?_⟩
    rw [← (Flow.ofMethod_ok built).1] at stands
    refine except_bind_ok.mpr ⟨settled, ?_, rfl⟩
    simp only [Flow.size_replace]
    exact Flow.settle_replace stands plain fresh run never

/-- Tests its argument again and again until it is zero; what throws meanwhile is thrown on. Behind the
jump back stands an instruction that nothing leads to. -/
def skipping : Method where
  access := ⟨8⟩
  name := "skipping"
  descriptor := "(I)V"
  signature := none
  exceptions := []
  instructions := #[.label ⟨0⟩, .variable .iload 0, .jump .ifeq ⟨1⟩, .jump .goto ⟨0⟩, .simple .pop,
    .label ⟨1⟩, .simple .returnVoid, .label ⟨2⟩, .simple .athrow]
  ranges := [⟨⟨0⟩, ⟨1⟩, ⟨2⟩, none⟩]
  variableTable := none
  maxStack := 1
  maxLocals := 1

def skippingFrames : Array (Option Frame) :=
  #[some ⟨[.int], []⟩, some ⟨[.int], []⟩, some ⟨[.int], [.int]⟩, some ⟨[.int], []⟩, none,
    some ⟨[.int], []⟩, some ⟨[.int], []⟩, some ⟨[.int], [.reference throwableName]⟩,
    some ⟨[.int], [.reference throwableName]⟩]

theorem analyze_replace_unreached_skipping : spinVerifier.analyze skipping = .ok skippingFrames ∧
    skippingFrames[4]? = some none ∧ skipping.instructions[4]? = some (.simple .pop) ∧
    (∀ label ∈ (Instruction.jump .goto ⟨0⟩).references, .label label ∈ skipping.instructions) ∧
    spinVerifier.analyze (skipping.replace 4 (.jump .goto ⟨0⟩)) = .ok skippingFrames := by
  have accepted : spinVerifier.analyze skipping = .ok skippingFrames := by decide +kernel
  have placed : ∀ label ∈ (Instruction.jump .goto ⟨0⟩).references, .label label ∈ skipping.instructions := by
    simp [Instruction.references, skipping]
  exact ⟨accepted, rfl, rfl, placed, analyze_replace_unreached accepted rfl rfl rfl rfl placed⟩

end Verifier
end Verify
end Bytecode
