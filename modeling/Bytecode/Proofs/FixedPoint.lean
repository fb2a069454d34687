import Bytecode.Proofs.Worklist

/-! An accepted method has a least consistent assignment of frames, and the analysis finds
it. A frame is known exactly where control can go. -/

namespace Bytecode.Verify
open List

/-- A label stands at its position. -/
theorem position?_stands {instructions : Array Instruction} {label : Label} {index : Nat}
    (found : position? instructions label = some index) : instructions[index]? = some (.label label) := by
  simp only [position?, Option.map_eq_some_iff] at found
  obtain ⟨⟨instruction, place⟩, last, rfl⟩ := found
  obtain ⟨listed, same⟩ := List.mem_filter.mp (List.mem_of_getLast? last)
  obtain rfl : instruction = .label label := by simpa using same
  simpa using List.mem_zipIdx_iff_getElem?.mp listed

theorem position?_inside {instructions : Array Instruction} {label : Label} {index : Nat}
    (found : position? instructions label = some index) : index < instructions.size :=
  (Array.getElem?_eq_some_iff.mp (position?_stands found)).1

theorem HandlerRange.ofRange_inside {instructions : Array Instruction} {number : Nat}
    {range : ExceptionRange} {handler : HandlerRange}
    (resolved : HandlerRange.ofRange instructions number range = .ok handler) :
    handler.entry < instructions.size := by
  obtain ⟨first, _, resolved⟩ := except_bind_ok.mp resolved
  obtain ⟨last, _, resolved⟩ := except_bind_ok.mp resolved
  obtain ⟨index, entry, resolved⟩ := except_bind_ok.mp resolved
  simp only at resolved
  split at resolved
  next => cases resolved
  next =>
    cases resolved
    simp only at entry
    split at entry
    next placed =>
      cases entry
      exact position?_inside placed
    next => cases entry

private theorem mapM_ok {α β ε : Type} {f : α → Except ε β} {inputs : List α} {outputs : List β}
    (mapped : inputs.mapM f = .ok outputs) : ∀ output ∈ outputs, ∃ input, f input = .ok output := by
  induction inputs generalizing outputs with
  | nil =>
    cases mapped
    intro output listed
    cases listed
  | cons input rest ih =>
    rw [List.mapM_cons] at mapped
    obtain ⟨value, first, mapped⟩ := except_bind_ok.mp mapped
    obtain ⟨values, others, mapped⟩ := except_bind_ok.mp mapped
    cases mapped
    intro output listed
    rcases List.mem_cons.mp listed with rfl | later
    · exact ⟨input, first⟩
    · exact ih others output later

theorem Flow.ofMethod_ok {method : Method} {flow : Flow} (built : Flow.ofMethod method = .ok flow) :
    flow.instructions = method.instructions ∧
      ∀ handler ∈ flow.handlers, handler.entry < flow.size := by
  unfold Flow.ofMethod at built
  simp only at built
  split at built
  next => cases built
  next =>
    obtain ⟨handlers, mapped, built⟩ := except_bind_ok.mp built
    cases built
    refine ⟨rfl, ?_⟩
    intro handler listed
    obtain ⟨⟨range, number⟩, resolved⟩ := mapM_ok mapped handler listed
    exact HandlerRange.ofRange_inside resolved

namespace Setting
variable {setting : Setting} {frames : Array (Option Frame)}

/-- Consistent frames reach as far as control does. -/
theorem Consistent.reaches (consistent : setting.Consistent frames) {moves : List Move} {index : Nat}
    (path : setting.flow.Path moves index) : ∃ frame, Holds frames index frame := by
  induction path with
  | start =>
    obtain ⟨frame, held, _⟩ := consistent.start
    exact ⟨frame, held⟩
  | step _ allowed ih =>
    obtain ⟨before, held⟩ := ih
    cases allowed with
    | goes present next =>
      obtain ⟨after, done⟩ := consistent.accepts _ _ before present held
      obtain ⟨frame, kept, _⟩ := consistent.covers ⟨_, _, false⟩ before after held (.goes present done next)
      exact ⟨frame, kept⟩
    | throws present ordinary listed covers =>
      obtain ⟨frame, kept, _⟩ := consistent.covers ⟨_, _, true⟩ before _ held
        (.throws present ordinary listed covers)
      exact ⟨frame, kept⟩

/-- A frame that every consistent assignment has to cover. -/
structure Forced (setting : Setting) (index : Nat) (frame : Frame) : Prop where
  width : frame.locals.length = setting.initial.locals.length
  reached : ∃ moves, setting.flow.Path moves index
  least : ∀ other, setting.Consistent other → ∃ above, Holds other index above ∧ frame.Below above

/-- What a move carries grows with the frame it starts from. -/
theorem Consistent.passes_below {move : Move} {before above incoming : Frame}
    (consistent : setting.Consistent frames) (held : Holds frames move.source above)
    (below : before.Below above) (passes : setting.flow.Passes setting.around before move incoming) :
    ∃ frame, Holds frames move.target frame ∧ incoming.Below frame := by
  cases passes with
  | goes present done next =>
    obtain ⟨after, ran⟩ := consistent.accepts _ _ above present held
    obtain ⟨frame, kept, lower⟩ := consistent.covers ⟨_, _, false⟩ above after held (.goes present ran next)
    exact ⟨frame, kept, (transfer_below below done ran).trans lower⟩
  | throws present ordinary listed covers =>
    obtain ⟨frame, kept, lower⟩ := consistent.covers ⟨_, _, true⟩ above _ held
      (.throws present ordinary listed covers)
    exact ⟨frame, kept, (below.withStack _).trans lower⟩

theorem forced_carries (setting : Setting) : setting.Carries setting.Forced where
  initial := ⟨rfl, ⟨[], .start⟩, fun _ consistent => consistent.start⟩
  width _ _ forced := forced.width
  moves := by
    intro move before incoming forced passes
    refine ⟨passes.width.trans forced.width, ?_, ?_⟩
    · obtain ⟨moves, path⟩ := forced.reached
      exact ⟨move :: moves, .step path passes.allowed⟩
    · intro other consistent
      obtain ⟨above, held, below⟩ := forced.least other consistent
      exact consistent.passes_below held below passes
  merges := by
    intro index held incoming merged forced also joined
    have same := forced.width.trans also.width.symm
    refine ⟨(Frame.merge_locals_length joined).trans forced.width, forced.reached, ?_⟩
    intro other consistent
    obtain ⟨above, kept, below⟩ := forced.least other consistent
    obtain ⟨also, again, lower⟩ := also.least other consistent
    obtain rfl := kept.unique again
    exact ⟨above, kept, (Frame.merge_ok same joined).2.2 above below lower⟩

/-- With nothing left to visit the frames are consistent. -/
theorem Valid.consistent {fits : Nat → Frame → Prop} {progress : Progress}
    (valid : setting.Valid fits progress) (empty : progress.queue = []) :
    setting.Consistent progress.frames := by
  have idle (index : Nat) : index ∉ progress.queue := by simp [empty]
  refine ⟨valid.size, valid.start, ?_, ?_, ?_⟩
  · intro index instruction before present held
    exact (valid.settled index instruction before present held (idle index)).accepts
  · intro index instruction before present held
    exact (valid.settled index instruction before present held (idle index)).inside
  · intro move before incoming held passes
    obtain ⟨instruction, present⟩ : ∃ instruction,
        setting.flow.instructions[move.source]? = some instruction := by
      cases passes with
      | goes present => exact ⟨_, present⟩
      | throws present => exact ⟨_, present⟩
    exact (valid.settled move.source instruction before present held (idle _)).covers _ move.thrown
      incoming passes

end Setting

namespace Verifier
variable {verifier : Verifier} {method : Method} {frames : Array (Option Frame)}

theorem setting_iff {setting : Setting} : verifier.setting method = .ok setting ↔
    method.instructions.isEmpty = false ∧ ∃ type, MethodType.parse method.descriptor = .ok type ∧
      Flow.ofMethod method = .ok setting.flow ∧ verifier.surroundings method type = setting.around ∧
      verifier.initialFrame method type = .ok setting.initial := by
  obtain ⟨flow, around, initial⟩ := setting
  unfold Verifier.setting
  cases method.instructions.isEmpty with
  | true => simp [throw, throwThe, MonadExceptOf.throw, bind, Except.bind]
  | false =>
    simp only [Bool.false_eq_true, if_false, except_bind_ok, mapError_ok, true_and]
    constructor
    · intro prepared
      obtain ⟨type, parsed, found, built, first, placed, same⟩ := prepared
      cases same
      exact ⟨type, parsed, built, rfl, placed⟩
    · intro prepared
      obtain ⟨type, parsed, built, rfl, placed⟩ := prepared
      exact ⟨type, parsed, flow, built, initial, placed, rfl⟩

theorem setting_ok {setting : Setting} (prepared : verifier.setting method = .ok setting) :
    ∃ type, MethodType.parse method.descriptor = .ok type ∧
      Flow.ofMethod method = .ok setting.flow ∧ verifier.surroundings method type = setting.around ∧
      verifier.initialFrame method type = .ok setting.initial ∧ 0 < setting.flow.size := by
  obtain ⟨nonempty, type, parsed, built, around, placed⟩ := setting_iff.mp prepared
  refine ⟨type, parsed, built, around, placed, ?_⟩
  rw [Flow.size, (Flow.ofMethod_ok built).1]
  exact Array.size_pos_iff.mpr (by simpa using nonempty)

/-- What holds of every frame on the way holds of every frame found. -/
theorem analyze_ok {fits : Setting → Nat → Frame → Prop}
    (carries : ∀ setting, verifier.setting method = .ok setting → setting.Carries (fits setting))
    (code : method.access.hasNoCode = false) (accepted : verifier.analyze method = .ok frames) :
    ∃ setting, verifier.setting method = .ok setting ∧ setting.Consistent frames ∧
      ∀ index frame, Holds frames index frame → fits setting index frame := by
  rw [analyze_eq verifier method code] at accepted
  obtain ⟨setting, prepared, accepted⟩ := except_bind_ok.mp accepted
  obtain ⟨settled, visited, accepted⟩ := except_bind_ok.mp accepted
  cases accepted
  obtain ⟨type, _, built, _, _, nonempty⟩ := setting_ok prepared
  obtain ⟨valid, empty⟩ := (Setting.valid_start (carries setting prepared) nonempty).settle
    (carries setting prepared) (Flow.ofMethod_ok built).2 visited
  exact ⟨setting, prepared, valid.consistent empty, valid.known⟩

/-- The frames of an accepted method are the least consistent ones, and known exactly at the
indices that control reaches. -/
theorem analyze_least (code : method.access.hasNoCode = false)
    (accepted : verifier.analyze method = .ok frames) :
    ∃ setting, verifier.setting method = .ok setting ∧ setting.Consistent frames ∧
      (∀ other, setting.Consistent other → FramesBelow frames other) ∧
      ∀ index, (∃ frame, Holds frames index frame) ↔ ∃ moves, setting.flow.Path moves index := by
  obtain ⟨setting, prepared, consistent, forced⟩ :=
    analyze_ok (fun setting _ => setting.forced_carries) code accepted
  refine ⟨setting, prepared, consistent, ?_, ?_⟩
  · intro other also index frame held
    exact (forced index frame held).least other also
  · intro index
    constructor
    · rintro ⟨frame, held⟩
      exact (forced index frame held).reached
    · rintro ⟨moves, path⟩
      exact consistent.reaches path

/-- Tests its argument again and again until it is not zero. -/
def spin : Method where
  access := ⟨8⟩
  name := "spin"
  descriptor := "(I)I"
  signature := none
  exceptions := []
  instructions := #[.label ⟨0⟩, .variable .iload 0, .jump .ifeq ⟨0⟩, .simple .iconst0,
    .simple .ireturn]
  ranges := []
  variableTable := none
  maxStack := 1
  maxLocals := 1

def spinVerifier : Verifier := ⟨"Main", 1, 100⟩

def spinFrames : Array (Option Frame) :=
  #[some ⟨[.int], []⟩, some ⟨[.int], []⟩, some ⟨[.int], [.int]⟩, some ⟨[.int], []⟩,
    some ⟨[.int], [.int]⟩]

theorem analyze_least_spin : ∃ setting, spinVerifier.setting spin = .ok setting ∧
    setting.Consistent spinFrames ∧
    (∀ other, setting.Consistent other → FramesBelow spinFrames other) ∧
    ∀ index, (∃ frame, Holds spinFrames index frame) ↔ ∃ moves, setting.flow.Path moves index := by
  have accepted : spinVerifier.analyze spin = .ok spinFrames := by decide +kernel
  exact analyze_least (by decide) accepted

end Verifier
end Bytecode.Verify
