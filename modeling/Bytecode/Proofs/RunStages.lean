import Bytecode.Proofs.FixedPoint

/-! The analysis step by step. A visit is taken up with all edges of its instruction, which then arrive one
by one, so that every frame that is ever known is known at some stage, those of a run that fails included. -/

namespace Bytecode.Verify
namespace Setting

def start (setting : Setting) : Progress :=
  (⟨Array.replicate setting.flow.size none, []⟩ : Progress).update 0 setting.initial

/-- What a run comes through: its progress, the instruction visited last, and the edges from there that have
not arrived yet. -/
inductive Stage (setting : Setting) : Progress → Nat → List (Nat × Frame) → Prop where
  | start : Stage setting setting.start 0 []
  | visit {progress source index rest instruction before passed} (stage : Stage setting progress source [])
      (queue : progress.queue = index :: rest) (present : setting.flow.instructions[index]? = some instruction)
      (held : Holds progress.frames index before)
      (found : setting.flow.edges setting.around index instruction before = .ok passed) :
      Stage setting { progress with queue := rest } index passed
  | skip {progress source index rest} (stage : Stage setting progress source [])
      (queue : progress.queue = index :: rest)
      (nothing : ∀ instruction before, setting.flow.instructions[index]? = some instruction →
        ¬ Holds progress.frames index before) :
      Stage setting { progress with queue := rest } index []
  | arrive {progress next source target incoming waiting}
      (stage : Stage setting progress source ((target, incoming) :: waiting))
      (arrived : progress.arrive setting.flow source target incoming = .ok next) :
      Stage setting next source waiting

/-- A frame that a run holds at an index. A merge that fails leaves the frame there with part of its stack
merged. -/
inductive HeldAt (setting : Setting) (index : Nat) : Frame → Prop where
  | known {progress source waiting frame} (stage : Stage setting progress source waiting)
      (held : Holds progress.frames index frame) : HeldAt setting index frame
  | torn {progress source incoming waiting frame failure}
      (stage : Stage setting progress source ((index, incoming) :: waiting))
      (held : Holds progress.frames index frame) (failed : frame.merge incoming = .error failure) :
      HeldAt setting index failure.remaining

variable {setting : Setting} {progress next : Progress} {source : Nat} {waiting : List (Nat × Frame)}

theorem Stage.arrivals (stage : setting.Stage progress source waiting)
    (arrived : waiting.foldlM (fun progress edge =>
      progress.arrive setting.flow source edge.1 edge.2) progress = .ok next) : setting.Stage next source [] := by
  induction waiting generalizing progress with
  | nil =>
    cases arrived
    exact stage
  | cons edge rest ih =>
    rw [List.foldlM_cons] at arrived
    obtain ⟨middle, first, arrived⟩ := except_bind_ok.mp arrived
    exact ih (stage.arrive first) arrived

theorem Stage.visited {index : Nat} {rest : List Nat} (stage : setting.Stage progress source [])
    (queue : progress.queue = index :: rest)
    (visited : setting.flow.visit setting.around { progress with queue := rest } index = .ok next) :
    setting.Stage next index [] := by
  unfold Flow.visit at visited
  split at visited
  next instruction before present held =>
    obtain ⟨passed, found, arrived⟩ := except_bind_ok.mp visited
    exact (stage.visit queue present (holds_iff.mp held) found).arrivals arrived
  next nothing =>
    cases visited
    exact stage.skip queue fun instruction before present held =>
      nothing instruction before present (holds_iff.mpr held)

theorem Stage.settled {limit visits : Nat} (stage : setting.Stage progress source [])
    (settled : setting.flow.settle setting.around limit visits progress = .ok next) :
    ∃ last, setting.Stage next last [] := by
  induction visits generalizing progress source with
  | zero =>
    unfold Flow.settle at settled
    split at settled
    next =>
      cases settled
      exact ⟨source, stage⟩
    next => cases settled
  | succ visits ih =>
    unfold Flow.settle at settled
    split at settled
    next =>
      cases settled
      exact ⟨source, stage⟩
    next index rest queue =>
      simp only at settled
      obtain ⟨middle, visited, settled⟩ := except_bind_ok.mp settled
      exact ih (stage.visited queue visited) settled

/-- What moves and merges carry holds of the frames known at a stage, and of those on the way. -/
theorem Carries.stage {fits : Nat → Frame → Prop} (carries : setting.Carries fits)
    (entries : ∀ handler ∈ setting.flow.handlers, handler.entry < setting.flow.size)
    (nonempty : 0 < setting.flow.size) (stage : setting.Stage progress source waiting) :
    (∀ index frame, Holds progress.frames index frame → fits index frame) ∧
      ∀ target incoming, (target, incoming) ∈ waiting → fits target incoming := by
  induction stage with
  | start => exact ⟨(valid_start carries nonempty).known, nofun⟩
  | visit _ _ present held found ih =>
    refine ⟨ih.1, ?_⟩
    intro target incoming listed
    exact (carries.edges entries present (ih.1 _ _ held) found target incoming listed).2
  | skip _ _ _ ih => exact ⟨ih.1, nofun⟩
  | arrive _ arrived ih =>
    have fresh := ih.2 _ _ List.mem_cons_self
    exact ⟨carries.arrive arrived ih.1 fresh, fun target incoming later =>
      ih.2 target incoming (List.mem_cons_of_mem _ later)⟩

theorem Carries.heldAt {fits : Nat → Frame → Prop} (carries : setting.Carries fits)
    (entries : ∀ handler ∈ setting.flow.handlers, handler.entry < setting.flow.size)
    (nonempty : 0 < setting.flow.size)
    (torn : ∀ index held incoming failure, fits index held → fits index incoming →
      held.merge incoming = .error failure → fits index failure.remaining)
    {index : Nat} {frame : Frame} (held : setting.HeldAt index frame) : fits index frame := by
  cases held with
  | known stage held => exact (carries.stage entries nonempty stage).1 index frame held
  | torn stage held failed =>
    obtain ⟨known, fresh⟩ := carries.stage entries nonempty stage
    exact torn index _ _ _ (known index _ held) (fresh index _ List.mem_cons_self) failed

theorem Carries.and {first second : Nat → Frame → Prop} (one : setting.Carries first)
    (other : setting.Carries second) :
    setting.Carries fun index frame => first index frame ∧ second index frame where
  initial := ⟨one.initial, other.initial⟩
  width index frame fits := one.width index frame fits.1
  moves move before incoming fits passes :=
    ⟨one.moves move before incoming fits.1 passes, other.moves move before incoming fits.2 passes⟩
  merges index held incoming merged fits fresh joined :=
    ⟨one.merges index held incoming merged fits.1 fresh.1 joined,
      other.merges index held incoming merged fits.2 fresh.2 joined⟩

end Setting

/-- The frames that an analysis returns are those of its last stage. -/
theorem Verifier.analyze_stage {verifier : Verifier} {method : Method} {frames : Array (Option Frame)}
    (code : method.access.hasNoCode = false) (accepted : verifier.analyze method = .ok frames) :
    ∃ setting progress last, verifier.setting method = .ok setting ∧ setting.Stage progress last [] ∧
      progress.frames = frames := by
  rw [analyze_eq verifier method code] at accepted
  obtain ⟨setting, prepared, accepted⟩ := except_bind_ok.mp accepted
  obtain ⟨settled, visited, accepted⟩ := except_bind_ok.mp accepted
  cases accepted
  obtain ⟨last, stage⟩ := Setting.Stage.start.settled visited
  exact ⟨setting, settled, last, prepared, stage, rfl⟩

end Bytecode.Verify
