import Bytecode.Proofs.BrokenRules
import Bytecode.Proofs.FixedPoint

/-! What an analysis rejects a method for, and where. Before the first visit it can only be what the
method says of itself; after that a visit is refused at the instruction it is made to. -/

namespace Bytecode.Verify

/-- Two stacks that cannot be merged. -/
inductive Violation.OfMerge : Violation → Prop where
  | height (expected found : Nat) : OfMerge (.stackHeight expected found)
  | value (depth : Nat) (left right : Value) : OfMerge (.incompatibleStack depth left right)

/-- What a visit to an instruction can be refused for. -/
inductive Violation.OfVisit (instruction : Instruction) : Violation → Prop where
  | breaks {violation} (broken : violation.OfInstruction instruction) : OfVisit instruction violation
  | offEnd : OfVisit instruction .fallsOffEnd
  | clash {violation} (merged : violation.OfMerge) : OfVisit instruction violation
  | entered {violation} (handler : Nat) (merged : violation.OfMerge) :
    OfVisit instruction (.handlerEntered handler violation)

open Violation (OfMerge OfVisit)

/-- What a method can be rejected for before its first instruction is visited. -/
inductive Rejection.OfSetting (method : Method) : Rejection → Prop where
  | noCode (empty : method.instructions = #[]) : OfSetting method ⟨0, .fallsOffEnd⟩
  | descriptor {error} (code : method.instructions ≠ #[])
    (malformed : MethodType.parse method.descriptor = .error error) :
    OfSetting method ⟨0, .typeMismatch .methodDescriptor (.descriptor error)⟩
  | operand {index instruction label} (stands : method.instructions[index]? = some instruction)
    (refers : label ∈ instruction.references) (missing : position? method.instructions label = none) :
    OfSetting method ⟨index, .unknownLabel label⟩
  | range {range : ExceptionRange} {label} (code : method.instructions ≠ #[]) (listed : range ∈ method.ranges)
    (named : label ∈ [range.start, range.stop, range.handler])
    (missing : position? method.instructions label = none) : OfSetting method ⟨0, .unknownLabel label⟩
  | inverted {range : ExceptionRange} {start} (number : Nat)
    (starts : position? method.instructions range.start = some start) :
    OfSetting method ⟨start, .invertedRange number⟩
  | argument (code : method.instructions ≠ #[]) (slot count : Nat) :
    OfSetting method ⟨0, .localOutOfRange slot count⟩

/-- What a method can be rejected for. -/
inductive Rejection.OfAnalysis (method : Method) : Rejection → Prop where
  | setting {rejection} (early : rejection.OfSetting method) : OfAnalysis method rejection
  | visit {index instruction violation} (stands : method.instructions[index]? = some instruction)
    (refused : violation.OfVisit instruction) : OfAnalysis method ⟨index, violation⟩
  | limit {index} (inside : index < method.instructions.size) (limit : Nat) :
    OfAnalysis method ⟨index, .visitLimit limit⟩

open Rejection (OfSetting OfAnalysis)

theorem mergeStack_raises (left right : List Value) :
    Raises (fun conflict => OfMerge conflict.violation) (mergeStack left right) := by
  induction left generalizing right with
  | nil => exact .ok []
  | cons value below ih =>
    cases right with
    | nil => exact .ok _
    | cons other rest =>
      simp only [mergeStack]
      split
      next conflict refused => exact .error (ih rest conflict refused)
      next =>
        split
        next => exact .ok _
        next => exact .error (.value _ _ _)

theorem Frame.merge_raises (frame incoming : Frame) :
    Raises (fun failure => OfMerge failure.violation) (frame.merge incoming) := by
  unfold Frame.merge
  split
  next => exact .error (.height _ _)
  next =>
    split
    next conflict refused => exact .error (mergeStack_raises _ _ conflict refused)
    next => exact .ok _

/-- A visit to an instruction is refused at its index. -/
def Rejection.At (index : Nat) (instruction : Instruction) (rejection : Rejection) : Prop :=
  rejection.index = index ∧ rejection.violation.OfVisit instruction

theorem Progress.arrive_raises (progress : Progress) (flow : Flow) (source target : Nat) (incoming : Frame)
    (instruction : Instruction) :
    Raises (Rejection.At source instruction) (progress.arrive flow source target incoming) := by
  unfold Progress.arrive
  split
  next => exact .ok _
  next frame _ =>
    split
    next => exact .ok _
    next failure refused =>
      have clash := frame.merge_raises incoming failure refused
      apply Raises.error
      refine ⟨rfl, ?_⟩
      show OfVisit instruction (if _ then _ else _)
      split
      next => exact .entered target clash
      next => exact .clash clash

namespace Flow
variable (flow : Flow) (around : Surroundings)

theorem edges_raises (index : Nat) (instruction : Instruction) (before : Frame) :
    Raises (Rejection.At index instruction) (flow.edges around index instruction before) := by
  have refused : Raises (Rejection.At index instruction)
      (((transfer around index instruction).run before).mapError fun violation => (⟨index, violation⟩ : Rejection)) :=
    (transfer_breaks around index instruction before).mapError fun _ broken => ⟨rfl, .breaks broken⟩
  apply refused.bind
  intro outcome
  simp only
  split
  next => exact .error ⟨rfl, .offEnd⟩
  next => exact .ok _

theorem visit_raises (progress : Progress) (index : Nat) : Raises (fun rejection => ∃ instruction,
    flow.instructions[index]? = some instruction ∧ rejection.At index instruction)
      (flow.visit around progress index) := by
  unfold visit
  split
  next instruction before present _ =>
    have refused : Raises (Rejection.At index instruction) (flow.edges around index instruction before >>=
        fun edges => edges.foldlM (fun progress edge => progress.arrive flow index edge.1 edge.2) progress) :=
      (flow.edges_raises around index instruction before).bind fun _ =>
        .foldlM fun later edge => later.arrive_raises flow index edge.1 edge.2 instruction
    exact refused.mono fun _ refused => ⟨instruction, present, refused⟩
  next => exact .ok progress

variable {flow around} {progress next : Progress}

/-- Edges lead to instructions. -/
theorem edges_inside (entries : ∀ handler ∈ flow.handlers, handler.entry < flow.size) {index : Nat}
    {instruction : Instruction} {before : Frame} {passed : List (Nat × Frame)}
    (present : flow.instructions[index]? = some instruction)
    (found : flow.edges around index instruction before = .ok passed) (edge : Nat × Frame) (listed : edge ∈ passed) :
    edge.1 < flow.size := by
  obtain ⟨target, incoming⟩ := edge
  obtain ⟨_, inside, edges⟩ := edges_ok present found
  obtain ⟨thrown, passes⟩ := (edges target incoming).mp listed
  cases passes.allowed with
  | goes also successor =>
    obtain rfl := Option.some.inj (present.symm.trans also)
    exact inside target successor
  | throws _ _ placed => exact entries _ placed

/-- Whatever is due after an arrival was due before it, or is its target. -/
theorem arrive_due {source target : Nat} {incoming : Frame}
    (arrived : progress.arrive flow source target incoming = .ok next) {index : Nat} (due : index ∈ next.queue) :
    index ∈ progress.queue ∨ index = target := by
  have updated {frame : Frame} (due : index ∈ (progress.update target frame).queue) :
      index ∈ progress.queue ∨ index = target := by
    simp only [Progress.update] at due
    split at due
    next => exact .inl due
    next => simpa using due
  rcases Progress.arrive_ok arrived with ⟨_, rfl⟩ | ⟨_, _, _, _, ⟨_, rfl⟩ | ⟨_, rfl⟩⟩
  · exact updated due
  · exact .inl due
  · exact updated due

/-- Only instructions become due. -/
theorem visit_inside (entries : ∀ handler ∈ flow.handlers, handler.entry < flow.size)
    (inside : ∀ due ∈ progress.queue, due < flow.size) {index : Nat}
    (visited : flow.visit around progress index = .ok next) : ∀ due ∈ next.queue, due < flow.size := by
  unfold visit at visited
  split at visited
  next instruction before present _ =>
    obtain ⟨passed, found, arrived⟩ := except_bind_ok.mp visited
    apply foldlM_holds (fun later => ∀ due ∈ later.queue, due < flow.size) inside ?_ arrived
    intro early edge late listed inside arrived due waiting
    rcases arrive_due arrived waiting with old | rfl
    · exact inside due old
    · exact edges_inside entries present found edge listed
  next =>
    cases visited
    exact inside

theorem settle_raises (entries : ∀ handler ∈ flow.handlers, handler.entry < flow.size) (limit visits : Nat)
    (inside : ∀ due ∈ progress.queue, due < flow.size) : Raises (fun rejection =>
      (∃ instruction, flow.instructions[rejection.index]? = some instruction ∧
        rejection.violation.OfVisit instruction) ∨
      rejection.index < flow.size ∧ rejection.violation = .visitLimit limit)
        (flow.settle around limit visits progress) := by
  induction visits generalizing progress with
  | zero =>
    unfold settle
    split
    next => exact .ok progress
    next index rest queue =>
      apply Raises.error
      exact .inr ⟨inside index (queue ▸ List.mem_cons_self), rfl⟩
  | succ visits ih =>
    unfold settle
    split
    next => exact .ok progress
    next index rest queue =>
      have waiting : ∀ due ∈ rest, due < flow.size :=
        fun due listed => inside due (queue ▸ List.mem_cons_of_mem _ listed)
      refine Raises.bind_of_ok ?_ fun middle visited => ih (visit_inside entries waiting visited)
      refine (flow.visit_raises around { progress with queue := rest } index).mono ?_
      intro rejection refused
      obtain ⟨instruction, present, rfl, broken⟩ := refused
      exact .inl ⟨instruction, present, broken⟩

end Flow

theorem placeArguments_raises (count slot : Nat) (values : List Value) :
    Raises (fun violation => ∃ slot, violation = .localOutOfRange slot count) (placeArguments count slot values) := by
  induction values generalizing slot with
  | nil => exact .ok _
  | cons value rest ih =>
    rw [placeArguments]
    split
    next => exact (ih _).map
    next => exact .error ⟨slot, rfl⟩

section
variable {method : Method}

theorem HandlerRange.ofRange_raises (code : method.instructions ≠ #[]) (number : Nat) {range : ExceptionRange}
    (listed : range ∈ method.ranges) : Raises (OfSetting method) (ofRange method.instructions number range) := by
  unfold ofRange
  extract_lets find
  have found (label : Label) (named : label ∈ [range.start, range.stop, range.handler]) :
      Raises (OfSetting method) (find label) := by
    simp only [find]
    split
    next index _ => exact .ok index
    next missing => exact .error (.range code listed named missing)
  have placed {label : Label} {index : Nat} (done : find label = .ok index) :
      position? method.instructions label = some index := by
    simp only [find] at done
    split at done
    next known =>
      cases done
      exact known
    next => cases done
  apply (found range.start (by simp)).bind_of_ok
  intro start starts
  refine (found range.stop (by simp)).bind fun stop => (found range.handler (by simp)).bind fun entry => ?_
  simp only
  split
  next => exact .error (.inverted number (placed starts))
  next => exact .ok _

theorem Flow.ofMethod_raises (code : method.instructions ≠ #[]) : Raises (OfSetting method) (Flow.ofMethod method) := by
  unfold Flow.ofMethod
  split
  next rejection unknown =>
    obtain ⟨⟨instruction, index⟩, listed, missing⟩ := List.exists_of_findSome?_eq_some unknown
    obtain ⟨label, found, rfl⟩ := Option.map_eq_some_iff.mp missing
    have stands := List.mem_zipIdx_iff_getElem?.mp listed
    refine .error (.operand (by simpa using stands) (List.mem_of_find?_eq_some found) ?_)
    simpa using List.find?_some found
  next =>
    refine Raises.bind (.mapM_of_mem fun numbered listed => ?_) fun _ => .ok _
    exact HandlerRange.ofRange_raises code numbered.2 (List.fst_mem_of_mem_zipIdx listed)

namespace Verifier

theorem setting_raises (verifier : Verifier) (method : Method) :
    Raises (OfSetting method) (verifier.setting method) := by
  unfold Verifier.setting
  split
  next empty => exact .error (.noCode (by simpa using empty))
  next full =>
    have code : method.instructions ≠ #[] := by simpa using full
    have parsed : Raises (OfSetting method) ((MethodType.parse method.descriptor).mapError fun error =>
        (⟨0, .typeMismatch .methodDescriptor (.descriptor error)⟩ : Rejection)) := by
      cases malformed : MethodType.parse method.descriptor with
      | ok type => exact .ok type
      | error error => exact .error (.descriptor code malformed)
    have placed (type : MethodType) : Raises (OfSetting method)
        ((verifier.initialFrame method type).mapError fun violation => (⟨0, violation⟩ : Rejection)) := by
      refine ((placeArguments_raises _ _ _).bind fun _ => .ok _).mapError ?_
      intro violation outside
      obtain ⟨slot, rfl⟩ := outside
      exact .argument code slot _
    exact parsed.bind fun type => (Flow.ofMethod_raises code).bind fun _ => (placed type).bind fun _ => .ok _

theorem analyze_raises (verifier : Verifier) (method : Method) :
    Raises (OfAnalysis method) (verifier.analyze method) := by
  cases codeless : method.access.hasNoCode with
  | true =>
    rw [analyze_of_hasNoCode verifier codeless]
    exact .ok _
  | false =>
    rw [analyze_eq verifier method codeless]
    refine ((setting_raises verifier method).mono fun _ early => .setting early).bind_of_ok ?_
    intro setting prepared
    obtain ⟨_, _, built, _, _, nonempty⟩ := setting_ok prepared
    obtain ⟨same, entries⟩ := Flow.ofMethod_ok built
    have first : ∀ due ∈ ((⟨Array.replicate setting.flow.size none, []⟩ : Progress).update 0 setting.initial).queue,
        due < setting.flow.size := by
      simpa [Progress.update] using nonempty
    refine Raises.bind ((Flow.settle_raises entries _ _ first).mono ?_) fun settled => .ok settled.frames
    intro rejection refused
    obtain ⟨index, violation⟩ := rejection
    rw [Flow.size, same] at refused
    rcases refused with ⟨instruction, stands, broken⟩ | ⟨inside, rfl⟩
    · exact .visit stands broken
    · exact .limit inside _

end Verifier
end
end Bytecode.Verify
