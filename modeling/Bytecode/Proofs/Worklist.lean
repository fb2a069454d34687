import Bytecode.Proofs.Monotonicity
import Bytecode.Proofs.Paths

/-! What the analysis keeps from visit to visit: known frames only lose precision, and an
instruction that is not due has passed its frame on. Visits may come in any order. -/

namespace Bytecode.Verify
open List

namespace Action

theorem Performs.width {around : Surroundings} {action : Action} {before after : Frame}
    (performs : Performs around action before after) :
    after.locals.length = before.locals.length := by
  cases performs with
  | store => simp
  | construct _ _ replaced =>
    rw [replaced]
    simp [Frame.replace]
  | _ => rfl

end Action

theorem Flow.Passes.width {flow : Flow} {around : Surroundings} {before incoming : Frame} {move : Move}
    (passes : flow.Passes around before move incoming) :
    incoming.locals.length = before.locals.length := by
  cases passes with
  | goes _ done =>
    obtain ⟨action, _, performs⟩ := (Action.transfer_follows _ _ _ _).mp done
    exact performs.width
  | throws => rfl

namespace Progress

structure Grows (before after : Progress) : Prop where
  size : after.frames.size = before.frames.size
  due : ∀ index ∈ before.queue, index ∈ after.queue
  frames : FramesBelow before.frames after.frames
  fresh : ∀ index frame, Holds after.frames index frame →
    Holds before.frames index frame ∨ index ∈ after.queue

theorem Grows.refl (progress : Progress) : progress.Grows progress :=
  ⟨rfl, fun _ due => due, fun _ frame held => ⟨frame, held, .refl frame⟩, fun _ _ held => .inl held⟩

theorem Grows.trans {first second third : Progress} (early : first.Grows second)
    (late : second.Grows third) : first.Grows third := by
  refine ⟨late.size.trans early.size, fun index due => late.due index (early.due index due), ?_, ?_⟩
  · intro index frame held
    obtain ⟨middle, kept, lower⟩ := early.frames index frame held
    obtain ⟨above, last, upper⟩ := late.frames index middle kept
    exact ⟨above, last, lower.trans upper⟩
  · intro index frame held
    rcases late.fresh index frame held with kept | due
    · rcases early.fresh index frame kept with old | due
      · exact .inl old
      · exact .inr (late.due index due)
    · exact .inr due

variable {progress next : Progress} {flow : Flow} {source target : Nat} {frame incoming : Frame}

theorem update_due (progress : Progress) (index : Nat) (frame : Frame) :
    index ∈ (progress.update index frame).queue ∧
      ∀ other ∈ progress.queue, other ∈ (progress.update index frame).queue := by
  unfold update
  by_cases listed : progress.queue.contains index = true
  · simp only [listed, if_true]
    exact ⟨by simpa using listed, fun _ due => due⟩
  · simp only [listed]
    exact ⟨by simp, fun _ due => by simp [due]⟩

theorem update_holds (inside : target < progress.frames.size) :
    Holds (progress.update target frame).frames target frame := by
  simp [Holds, update, inside]

theorem update_holds_other {index : Nat} {held : Frame} (apart : index ≠ target) :
    Holds (progress.update target frame).frames index held ↔ Holds progress.frames index held := by
  have other : target ≠ index := fun same => apart same.symm
  simp [Holds, update, Array.getElem?_setIfInBounds_ne other]

theorem update_grows (inside : target < progress.frames.size)
    (above : ∀ held, Holds progress.frames target held → held.Below frame) :
    progress.Grows (progress.update target frame) := by
  obtain ⟨due, kept⟩ := update_due progress target frame
  refine ⟨by simp [update], kept, ?_, ?_⟩
  · intro index held known
    by_cases same : index = target
    · subst same
      exact ⟨frame, update_holds inside, above held known⟩
    · exact ⟨held, (update_holds_other same).mpr known, .refl held⟩
  · intro index held known
    by_cases same : index = target
    · exact .inr (same ▸ due)
    · exact .inl ((update_holds_other same).mp known)

/-- A frame comes in: at its target it is taken, absorbed or merged. -/
theorem arrive_ok (arrived : progress.arrive flow source target incoming = .ok next) :
    (progress.frames[target]?.join = none ∧ next = progress.update target incoming) ∨
      ∃ held merged, Holds progress.frames target held ∧ held.merge incoming = .ok merged ∧
        (held.absorbs incoming = true ∧ next = progress ∨
          held.absorbs incoming = false ∧ next = progress.update target merged) := by
  unfold arrive at arrived
  cases found : progress.frames[target]?.join with
  | none =>
    rw [found] at arrived
    cases arrived
    exact .inl ⟨rfl, rfl⟩
  | some held =>
    right
    rw [found] at arrived
    simp only at arrived
    split at arrived
    next merged joined =>
      refine ⟨held, merged, holds_iff.mp found, joined, ?_⟩
      cases arrived
      by_cases absorbed : held.absorbs incoming = true
      · exact .inl ⟨absorbed, if_pos absorbed⟩
      · exact .inr ⟨by simpa using absorbed, if_neg absorbed⟩
    · cases arrived

theorem arrive_grows (arrived : progress.arrive flow source target incoming = .ok next)
    (inside : target < progress.frames.size)
    (width : ∀ held, Holds progress.frames target held → held.locals.length = incoming.locals.length) :
    progress.Grows next ∧ ∃ above, Holds next.frames target above ∧ incoming.Below above := by
  rcases arrive_ok arrived with ⟨unknown, rfl⟩ | ⟨held, merged, known, joined, outcome⟩
  · refine ⟨update_grows inside ?_, incoming, update_holds inside, .refl incoming⟩
    intro held known
    rw [holds_iff.mpr known] at unknown
    cases unknown
  · obtain ⟨lower, upper, _⟩ := Frame.merge_ok (width held known) joined
    rcases outcome with ⟨absorbed, rfl⟩ | ⟨_, rfl⟩
    · have tall : held.stack.length = incoming.stack.length :=
        lower.stack.length_eq.trans upper.stack.length_eq.symm
      exact ⟨.refl _, held, known, Frame.absorbs_below (width held known) tall absorbed⟩
    · refine ⟨update_grows inside ?_, merged, update_holds inside, upper⟩
      intro other also
      rw [known.unique also] at lower
      exact lower

/-- Where a frame known after an arrival comes from. -/
theorem arrive_known {index : Nat} (arrived : progress.arrive flow source target incoming = .ok next)
    (known : Holds next.frames index frame) :
    Holds progress.frames index frame ∨ index = target ∧ (frame = incoming ∨
      ∃ held, Holds progress.frames target held ∧ held.merge incoming = .ok frame) := by
  have updated {value : Frame} (known : Holds (progress.update target value).frames index frame) :
      Holds progress.frames index frame ∨ index = target ∧ frame = value := by
    by_cases same : index = target
    · subst same
      have inside : index < progress.frames.size := by
        have := known.inside
        simpa [update] using this
      exact .inr ⟨rfl, known.unique (update_holds inside)⟩
    · exact .inl ((update_holds_other same).mp known)
  rcases arrive_ok arrived with ⟨_, rfl⟩ | ⟨held, merged, kept, joined, ⟨_, rfl⟩ | ⟨_, rfl⟩⟩
  · rcases updated known with old | ⟨same, rfl⟩
    · exact .inl old
    · exact .inr ⟨same, .inl rfl⟩
  · exact .inl known
  · rcases updated known with old | ⟨same, rfl⟩
    · exact .inl old
    · exact .inr ⟨same, .inr ⟨held, kept, joined⟩⟩

end Progress

namespace Setting

/-- A property of the frames at each index that holds at the start and that neither moves
nor merges lose. -/
structure Carries (setting : Setting) (fits : Nat → Frame → Prop) : Prop where
  initial : fits 0 setting.initial
  width : ∀ index frame, fits index frame → frame.locals.length = setting.initial.locals.length
  moves : ∀ move before incoming, fits move.source before →
    setting.flow.Passes setting.around before move incoming → fits move.target incoming
  merges : ∀ index held incoming merged, fits index held → fits index incoming →
    held.merge incoming = .ok merged → fits index merged

/-- The instruction at an index accepts its frame, and has passed it on. -/
structure Settled (setting : Setting) (frames : Array (Option Frame)) (index : Nat)
    (instruction : Instruction) (before : Frame) : Prop where
  accepts : ∃ after, (transfer setting.around index instruction).run before = .ok ((), after)
  inside : ∀ target ∈ setting.flow.successors index instruction, target < setting.flow.size
  covers : ∀ target thrown incoming,
    setting.flow.Passes setting.around before ⟨index, target, thrown⟩ incoming →
      ∃ frame, Holds frames target frame ∧ incoming.Below frame

theorem Settled.grows {setting : Setting} {before after : Array (Option Frame)} {index : Nat}
    {instruction : Instruction} {frame : Frame} (settled : setting.Settled before index instruction frame)
    (growth : FramesBelow before after) : setting.Settled after index instruction frame := by
  refine ⟨settled.accepts, settled.inside, ?_⟩
  intro target thrown incoming passes
  obtain ⟨held, known, lower⟩ := settled.covers target thrown incoming passes
  obtain ⟨above, kept, upper⟩ := growth target held known
  exact ⟨above, kept, lower.trans upper⟩

/-- What holds before and after every visit. -/
structure Valid (setting : Setting) (fits : Nat → Frame → Prop) (progress : Progress) : Prop where
  size : progress.frames.size = setting.flow.size
  start : ∃ frame, Holds progress.frames 0 frame ∧ setting.initial.Below frame
  known : ∀ index frame, Holds progress.frames index frame → fits index frame
  settled : ∀ index instruction frame, setting.flow.instructions[index]? = some instruction →
    Holds progress.frames index frame → index ∉ progress.queue →
      setting.Settled progress.frames index instruction frame

variable {setting : Setting} {fits : Nat → Frame → Prop} {progress next : Progress}

theorem Carries.arrive (carries : setting.Carries fits) {source target : Nat} {incoming : Frame}
    (arrived : progress.arrive setting.flow source target incoming = .ok next)
    (known : ∀ index frame, Holds progress.frames index frame → fits index frame)
    (fresh : fits target incoming) (index : Nat) (frame : Frame) (held : Holds next.frames index frame) :
    fits index frame := by
  rcases Progress.arrive_known arrived held with old | ⟨rfl, rfl | ⟨old, kept, joined⟩⟩
  · exact known index frame old
  · exact fresh
  · exact carries.merges index old incoming frame (known index old kept) fresh joined

theorem Carries.sameWidth (carries : setting.Carries fits) {target : Nat} {held incoming : Frame}
    (known : fits target held) (fresh : fits target incoming) :
    held.locals.length = incoming.locals.length :=
  (carries.width target held known).trans (carries.width target incoming fresh).symm

/-- The edges from a frame lead to instructions, and carry frames that fit there. -/
theorem Carries.edges (carries : setting.Carries fits)
    (entries : ∀ handler ∈ setting.flow.handlers, handler.entry < setting.flow.size) {index : Nat}
    {instruction : Instruction} {before : Frame} {passed : List (Nat × Frame)}
    (present : setting.flow.instructions[index]? = some instruction) (fitting : fits index before)
    (found : setting.flow.edges setting.around index instruction before = .ok passed) (target : Nat)
    (incoming : Frame) (listed : (target, incoming) ∈ passed) :
    target < setting.flow.size ∧ fits target incoming := by
  obtain ⟨_, inside, edges⟩ := Flow.edges_ok present found
  obtain ⟨thrown, passes⟩ := (edges target incoming).mp listed
  refine ⟨?_, carries.moves ⟨index, target, thrown⟩ before incoming fitting passes⟩
  cases passes with
  | goes also _ successor =>
    obtain rfl := Option.some.inj (present.symm.trans also)
    exact inside target successor
  | throws _ _ placed => exact entries _ placed

theorem arrive_all (carries : setting.Carries fits) {source : Nat} {passed : List (Nat × Frame)}
    (arrived : passed.foldlM (fun progress edge =>
      progress.arrive setting.flow source edge.1 edge.2) progress = .ok next)
    (size : progress.frames.size = setting.flow.size)
    (known : ∀ index frame, Holds progress.frames index frame → fits index frame)
    (good : ∀ target incoming, (target, incoming) ∈ passed →
      target < setting.flow.size ∧ fits target incoming) :
    progress.Grows next ∧ (∀ index frame, Holds next.frames index frame → fits index frame) ∧
      ∀ target incoming, (target, incoming) ∈ passed →
        ∃ frame, Holds next.frames target frame ∧ incoming.Below frame := by
  induction passed generalizing progress with
  | nil =>
    cases arrived
    exact ⟨.refl _, known, fun _ _ listed => absurd listed List.not_mem_nil⟩
  | cons edge rest ih =>
    obtain ⟨target, incoming⟩ := edge
    rw [List.foldlM_cons] at arrived
    obtain ⟨middle, first, arrived⟩ := except_bind_ok.mp arrived
    obtain ⟨inside, fresh⟩ := good target incoming List.mem_cons_self
    obtain ⟨grows, frame, taken, lower⟩ := Progress.arrive_grows first (size ▸ inside)
      fun held kept => carries.sameWidth (known target held kept) fresh
    have still := carries.arrive first known fresh
    obtain ⟨later, fitting, covered⟩ := ih arrived (grows.size.trans size) still
      fun target incoming listed => good target incoming (List.mem_cons_of_mem _ listed)
    refine ⟨grows.trans later, fitting, ?_⟩
    intro other frame listed
    rcases List.mem_cons.mp listed with same | listed
    · cases same
      obtain ⟨above, last, upper⟩ := later.frames target _ taken
      exact ⟨above, last, lower.trans upper⟩
    · exact covered other frame listed

/-- A visit settles its instruction unless an arrival makes it due again. -/
theorem Valid.visit {index : Nat} {rest : List Nat} (carries : setting.Carries fits)
    (entries : ∀ handler ∈ setting.flow.handlers, handler.entry < setting.flow.size)
    (valid : setting.Valid fits progress) (queue : progress.queue = index :: rest)
    (visited : setting.flow.visit setting.around { progress with queue := rest } index = .ok next) :
    setting.Valid fits next := by
  have still_idle {other : Nat} (apart : other ≠ index) (idle : other ∉ rest) :
      other ∉ progress.queue := by
    rw [queue, List.mem_cons, not_or]
    exact ⟨apart, idle⟩
  unfold Flow.visit at visited
  split at visited
  next instruction before present held =>
    have held : Holds progress.frames index before := holds_iff.mp held
    obtain ⟨passed, found, arrived⟩ := except_bind_ok.mp visited
    obtain ⟨accepts, inside, edges⟩ := Flow.edges_ok present found
    have good := carries.edges entries present (valid.known index before held) found
    obtain ⟨grows, known, covered⟩ := arrive_all carries arrived valid.size valid.known good
    refine ⟨grows.size.trans valid.size, ?_, known, ?_⟩
    · obtain ⟨frame, first, lower⟩ := valid.start
      obtain ⟨above, last, upper⟩ := grows.frames 0 frame first
      exact ⟨above, last, lower.trans upper⟩
    · intro other there frame stands kept idle
      -- A frame set during the visit is due, so an idle index still has the frame from before.
      rcases grows.fresh other frame kept with old | due
      · by_cases same : other = index
        · subst same
          obtain rfl := Option.some.inj (present.symm.trans stands)
          obtain rfl := held.unique old
          exact ⟨accepts, inside, fun target thrown incoming passes =>
            covered target incoming ((edges target incoming).mpr ⟨thrown, passes⟩)⟩
        · have waiting := still_idle same fun later => idle (grows.due other later)
          exact (valid.settled other there frame stands old waiting).grows grows.frames
      · exact absurd due idle
  next nothing =>
    cases visited
    refine ⟨valid.size, valid.start, valid.known, ?_⟩
    intro other there frame stands kept idle
    by_cases same : other = index
    · subst same
      exact absurd (holds_iff.mpr kept) (nothing there frame stands)
    · exact valid.settled other there frame stands kept (still_idle same idle)

theorem Valid.settle {limit visits : Nat} (carries : setting.Carries fits)
    (entries : ∀ handler ∈ setting.flow.handlers, handler.entry < setting.flow.size)
    (valid : setting.Valid fits progress)
    (settled : setting.flow.settle setting.around limit visits progress = .ok next) :
    setting.Valid fits next ∧ next.queue = [] := by
  induction visits generalizing progress with
  | zero =>
    unfold Flow.settle at settled
    split at settled
    next empty =>
      cases settled
      exact ⟨valid, empty⟩
    next => cases settled
  | succ visits ih =>
    unfold Flow.settle at settled
    split at settled
    next empty =>
      cases settled
      exact ⟨valid, empty⟩
    next index rest queue =>
      simp only at settled
      obtain ⟨middle, visited, rest_settled⟩ := except_bind_ok.mp settled
      exact ih (valid.visit carries entries queue visited) rest_settled

theorem valid_start (carries : setting.Carries fits) (nonempty : 0 < setting.flow.size) :
    setting.Valid fits
      ((⟨Array.replicate setting.flow.size none, []⟩ : Progress).update 0 setting.initial) := by
  have unknown (index : Nat) (frame : Frame) :
      ¬ Holds (Array.replicate setting.flow.size none) index frame := by
    simp [Holds, Array.getElem?_replicate]
  have only (index : Nat) (frame : Frame) (held : Holds
      ((⟨Array.replicate setting.flow.size none, []⟩ : Progress).update 0 setting.initial).frames
      index frame) : index = 0 ∧ frame = setting.initial := by
    by_cases same : index = 0
    · subst same
      exact ⟨rfl, held.unique (Progress.update_holds (by simpa using nonempty))⟩
    · exact absurd ((Progress.update_holds_other same).mp held) (unknown index frame)
  refine ⟨by simp [Progress.update], ?_, ?_, ?_⟩
  · exact ⟨setting.initial, Progress.update_holds (by simpa using nonempty), .refl _⟩
  · intro index frame held
    obtain ⟨rfl, rfl⟩ := only index frame held
    exact carries.initial
  · intro index instruction frame _ held idle
    obtain ⟨rfl, rfl⟩ := only index frame held
    exact absurd (Progress.update_due _ 0 setting.initial).1 idle

end Setting
end Bytecode.Verify
