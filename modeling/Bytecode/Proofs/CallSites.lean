import Bytecode.Assembler
import Bytecode.Proofs.StepResults

/-! The name of a call site decides nothing in a verification: with the names replaced, a method has
the same flow, the same frames, and breaks the same rules at the same places. -/

namespace Bytecode

/-- The instruction with the name of a call site replaced. -/
def Instruction.renameCallSite (site : String → String) : Instruction → Instruction
  | .callSite name descriptor bootstrap arguments => .callSite (site name) descriptor bootstrap arguments
  | other => other

/-- The name of a call site. -/
def Instruction.callSite? : Instruction → Option String
  | .callSite name _ _ _ => some name
  | _ => none

def Method.renameCallSites (site : String → String) (method : Method) : Method :=
  { method with instructions := method.instructions.map (Instruction.renameCallSite site) }

/-- The error with the name of a call site replaced, if it shows one. -/
def CompileError.renameCallSite (site : String → String) : CompileError → CompileError
  | .verification index line instruction violation =>
    .verification index line (instruction.map (Instruction.renameCallSite site)) violation
  | other => other

namespace Instruction
variable {site : String → String} {instruction : Instruction}

theorem renameCallSite_eq_iff :
    instruction.renameCallSite site = instruction ↔ ∀ name, instruction.callSite? = some name → site name = name := by
  cases instruction <;> simp [renameCallSite, callSite?]

@[simp] theorem references_renameCallSite :
    (instruction.renameCallSite site).references = instruction.references := by
  cases instruction <;> rfl

@[simp] theorem isMarker_renameCallSite :
    (instruction.renameCallSite site).isMarker = instruction.isMarker := by
  cases instruction <;> rfl

@[simp] theorem renameCallSite_beq_label {mark : Label} :
    (instruction.renameCallSite site == .label mark) = (instruction == .label mark) := by
  cases instruction <;> rfl

end Instruction

namespace Verify
variable {site : String → String}

theorem position?_renameCallSites (instructions : Array Instruction) (label : Label) :
    position? (instructions.map (Instruction.renameCallSite site)) label = position? instructions label := by
  simp [position?, List.zipIdx_map, List.filter_map, Function.comp_def]

theorem unknownLabel?_renameCallSites (instructions : Array Instruction) :
    unknownLabel? (instructions.map (Instruction.renameCallSite site)) = unknownLabel? instructions := by
  simp [unknownLabel?, List.zipIdx_map, List.findSome?_map, Function.comp_def, position?_renameCallSites]

theorem HandlerRange.ofRange_renameCallSites (instructions : Array Instruction) :
    HandlerRange.ofRange (instructions.map (Instruction.renameCallSite site)) = ofRange instructions := by
  funext number range
  simp only [ofRange, position?_renameCallSites]

theorem transfer_renameCallSite {around : Surroundings} (index : Nat) (instruction : Instruction) :
    transfer around index (instruction.renameCallSite site) = transfer around index instruction := by
  cases instruction <;> rfl

namespace Flow

def renameCallSites (site : String → String) (flow : Flow) : Flow :=
  { flow with instructions := flow.instructions.map (Instruction.renameCallSite site) }

variable {flow : Flow} {around : Surroundings}

theorem ofMethod_renameCallSites (method : Method) :
    ofMethod (method.renameCallSites site) = (ofMethod method).map (renameCallSites site) := by
  simp only [ofMethod, Method.renameCallSites, unknownLabel?_renameCallSites,
    HandlerRange.ofRange_renameCallSites]
  cases unknownLabel? method.instructions with
  | some rejection => rfl
  | none =>
    change (_ >>= _) = Except.map _ (_ >>= _)
    rw [except_map_bind]
    rfl

@[simp] theorem size_renameCallSites : (flow.renameCallSites site).size = flow.size := by
  simp [size, renameCallSites]

theorem successors_renameCallSites (index : Nat) (instruction : Instruction) :
    (flow.renameCallSites site).successors index (instruction.renameCallSite site) =
      flow.successors index instruction := by
  have target : (flow.renameCallSites site).target = flow.target := by
    funext label
    simp only [Flow.target, size_renameCallSites]
    rw [renameCallSites, position?_renameCallSites]
  have returns : (flow.renameCallSites site).subroutineReturns = flow.subroutineReturns := by
    simp only [subroutineReturns, renameCallSites, Array.toList_map, List.zipIdx_map, List.filterMap_map]
    congr 1
    funext entry
    obtain ⟨instruction, index⟩ := entry
    cases instruction <;> rfl
  cases instruction <;> simp only [Instruction.renameCallSite, successors, target, returns]

theorem edges_renameCallSites (index : Nat) (instruction : Instruction) (before : Frame) :
    (flow.renameCallSites site).edges around index (instruction.renameCallSite site) before =
      flow.edges around index instruction before := by
  simp only [edges, transfer_renameCallSite, successors_renameCallSites, size_renameCallSites,
    Instruction.isMarker_renameCallSite]
  rfl

theorem visit_renameCallSites (progress : Progress) (index : Nat) :
    (flow.renameCallSites site).visit around progress index = flow.visit around progress index := by
  have there : (flow.renameCallSites site).instructions[index]? =
      flow.instructions[index]?.map (Instruction.renameCallSite site) := by
    simp [renameCallSites]
  unfold visit
  rw [there]
  cases flow.instructions[index]? with
  | none => rfl
  | some instruction =>
    cases progress.frames[index]?.join with
    | none => rfl
    | some before =>
      simp only [Option.map_some, edges_renameCallSites]
      rfl

theorem settle_renameCallSites (limit visits : Nat) (progress : Progress) :
    (flow.renameCallSites site).settle around limit visits progress =
      flow.settle around limit visits progress := by
  induction visits generalizing progress with
  | zero =>
    rw [settle, settle]
  | succ visits ih =>
    rw [settle, settle]
    cases progress.queue with
    | nil => rfl
    | cons index rest =>
      simp only [visit_renameCallSites]
      congr 1
      funext next
      exact ih next

end Flow

theorem Verifier.analyze_renameCallSites (verifier : Verifier) (method : Method) :
    verifier.analyze (method.renameCallSites site) = verifier.analyze method := by
  have empty : (method.instructions.map (Instruction.renameCallSite site)).isEmpty =
      method.instructions.isEmpty := by
    simp only [Array.isEmpty, Array.size_map]
  unfold analyze
  rw [Flow.ofMethod_renameCallSites]
  simp only [Method.renameCallSites, empty]
  cases Flow.ofMethod method with
  | error => rfl
  | ok flow =>
    simp only [Except.map, bind, Except.bind, Flow.settle_renameCallSites, Flow.size_renameCallSites]
    rfl

end Verify

theorem SlotTable.localVariables_renameCallSites (table : SlotTable) (site : String → String)
    (instructions : Array Instruction) :
    table.localVariables (instructions.map (Instruction.renameCallSite site)).toList =
      table.localVariables instructions.toList := by
  have labels : placedLabels (instructions.toList.map (Instruction.renameCallSite site)) =
      placedLabels instructions.toList := by
    simp only [placedLabels, List.zipIdx_map, List.filterMap_map]
    congr 1
    funext entry
    obtain ⟨instruction, index⟩ := entry
    cases instruction <;> rfl
  simp only [localVariables, Array.toList_map, labels]

end Bytecode
