import Bytecode.Proofs.Acceptance
import Bytecode.Proofs.LineMarkers
import Bytecode.Proofs.Relocation

/-! Line markers do not change what a method's frames have to satisfy. They do change the order of
the visits, and with it whether a rule is broken that joins forget. -/

namespace Bytecode
open List

namespace Verify

theorem Value.BelowLocal.eq_relocate {rename back : Nat → Nat} {value moved : Value}
    (lower : value.BelowLocal (moved.relocate back)) (upper : moved.BelowLocal (value.relocate rename)) :
    moved = value.relocate rename := by
  rcases upper with unusable | below
  · rw [unusable]
    obtain rfl := Value.relocate_eq_empty.mp unusable
    rcases lower with same | below
    · exact Value.relocate_eq_empty.mp same
    · exact Value.relocate_eq_empty.mp below.of_empty
  · rcases Value.below_iff.mp below with same | ⟨rfl, name, same⟩ | ⟨⟨name, rfl⟩, same⟩
    · exact same
    · cases value <;> cases same
      rcases lower with unusable | above
      · cases unusable
      · cases above
    · cases value <;> cases same
      rcases lower with unusable | above
      · cases unusable
      · rcases Value.below_iff.mp above with equal | ⟨null, _⟩ | ⟨_, equal⟩
        · exact equal.symm
        · cases null
        · exact equal

theorem eq_map_relocate {rename back : Nat → Nat} {values moved : List Value}
    (lower : Forall₂ Value.BelowLocal values (moved.map (Value.relocate back)))
    (upper : Forall₂ Value.BelowLocal moved (values.map (Value.relocate rename))) :
    moved = values.map (Value.relocate rename) := by
  induction values generalizing moved with
  | nil =>
    cases upper
    rfl
  | cons value rest ih =>
    cases upper with
    | cons first others =>
      cases lower with
      | cons below following =>
        rw [List.map_cons, ← below.eq_relocate first, ← ih following others]

theorem Frame.Below.eq_relocate {rename back : Nat → Nat} {frame moved : Frame}
    (lower : frame.Below (moved.relocate back)) (upper : moved.Below (frame.relocate rename)) :
    moved = frame.relocate rename := by
  obtain ⟨locals, stack⟩ := moved
  have same := eq_map_relocate lower.locals upper.locals
  have also := eq_map_relocate (lower.stack.imp fun _ _ => .inr) (upper.stack.imp fun _ _ => .inr)
  exact congrArg₂ Frame.mk same also

theorem placed_relocate (rename : Nat → Nat) {count slot : Nat} {values locals : List Value}
    (fixed : ∀ value ∈ values, value.relocate rename = value)
    (placed : placeArguments count slot values = .ok locals) :
    locals.map (Value.relocate rename) = locals := by
  induction values generalizing slot locals with
  | nil =>
    cases placed
    rw [List.map_replicate]
    rfl
  | cons value rest ih =>
    rw [placeArguments] at placed
    split at placed
    next =>
      obtain ⟨after, laid, rfl⟩ := map_ok.mp placed
      have later := ih (fun other listed => fixed other (List.mem_cons_of_mem _ listed)) laid
      rw [List.map_cons, fixed value List.mem_cons_self, List.map_append, later, List.map_replicate]
      rfl
    next => cases placed

theorem Verifier.initialFrame_relocate {verifier : Verifier} {method : Method} {type : MethodType}
    {initial : Frame} (rename : Nat → Nat) (built : verifier.initialFrame method type = .ok initial) :
    initial.relocate rename = initial := by
  obtain ⟨locals, placed, same⟩ := except_bind_ok.mp built
  cases same
  have kept := placed_relocate rename ?_ placed
  · simp only [Frame.relocate, kept, List.map_nil]
  · intro value listed
    rcases List.mem_append.mp listed with receiver | parameter
    · split at receiver
      · cases receiver
      · split at receiver
        all_goals
          obtain rfl := List.mem_singleton.mp receiver
          rfl
    · obtain ⟨type, _, rfl⟩ := List.mem_map.mp parameter
      exact Value.relocate_ofType type

end Verify

namespace LineMarker
open Verify

/-- Undoes the displacement of the indices of a method of some size; what is left over goes to the
index that is left over. -/
def restored (marker : LineMarker) (size index : Nat) : Nat :=
  if index < marker.position then index
  else if index = marker.position then size
  else if index ≤ size then index - 1 else index

/-- Frames of a method, laid out for the marked one; the marker takes that of what follows it. -/
def spread (marker : LineMarker) (frames : Array (Option Frame)) : Array (Option Frame) :=
  Array.ofFn fun index : Fin (frames.size + 1) =>
    frames[marker.origin index]?.join.map (Frame.relocate marker.displaced)

/-- Frames of a marked method without that of the marker. -/
def gather (marker : LineMarker) (size : Nat) (frames : Array (Option Frame)) : Array (Option Frame) :=
  Array.ofFn fun index : Fin size =>
    frames[marker.displaced index]?.join.map (Frame.relocate (marker.restored size))

/-- The marked method has the frames of the other, at the indices and with the sites that the
marker displaces. -/
def Keeps (marker : LineMarker) (frames moved : Array (Option Frame)) : Prop :=
  ∀ index : Nat, moved[marker.displaced index]? =
    frames[index]?.map (Option.map (Frame.relocate marker.displaced))

variable {marker : LineMarker} {size : Nat} (inside : marker.position ≤ size)

include inside in
theorem restored_injective : Function.Injective (marker.restored size) := by
  intro first second same
  unfold restored at same
  grind

theorem restored_displaced {index : Nat} (placed : index < size) :
    marker.restored size (marker.displaced index) = index := by
  unfold restored displaced
  grind

private theorem holds_ofFn {size : Nat} {cell : Fin size → Option Frame} {index : Nat} {frame : Frame} :
    Holds (Array.ofFn cell) index frame ↔ ∃ inside : index < size, cell ⟨index, inside⟩ = some frame := by
  simp only [Holds, Array.getElem?_ofFn]
  split
  next placed => simp [placed]
  next outside => simp [outside]

theorem holds_spread {frames : Array (Option Frame)} {index : Nat} {moved : Frame} :
    Holds (marker.spread frames) index moved ↔
      ∃ frame, Holds frames (marker.origin index) frame ∧ frame.relocate marker.displaced = moved := by
  simp only [spread, holds_ofFn, Option.map_eq_some_iff, holds_iff]
  constructor
  · intro found
    exact found.2
  · intro found
    obtain ⟨frame, held, moved⟩ := found
    have placed := held.inside
    refine ⟨?_, frame, held, moved⟩
    unfold origin at placed
    split at placed <;> omega

include inside in
theorem holds_gather {frames : Array (Option Frame)} (sized : frames.size = size + 1) {index : Nat}
    {frame : Frame} : Holds (marker.gather size frames) index frame ↔
      ∃ moved, Holds frames (marker.displaced index) moved ∧
        moved.relocate (marker.restored size) = frame := by
  simp only [gather, holds_ofFn, Option.map_eq_some_iff, holds_iff]
  constructor
  · intro found
    exact found.2
  · intro found
    obtain ⟨moved, held, same⟩ := found
    exact ⟨marker.lt_of_displaced_lt (sized ▸ held.inside) inside, moved, held, same⟩

include inside in
/-- Frames that lie below those of the other method, either way, are the same. -/
theorem keeps_of_below {frames moved : Array (Option Frame)} (whole : frames.size = size)
    (sized : moved.size = size + 1) (below : FramesBelow frames (marker.gather size moved))
    (above : FramesBelow moved (marker.spread frames)) : marker.Keeps frames moved := by
  have known {index : Nat} {frame : Frame} (held : Holds moved (marker.displaced index) frame) :
      ∃ old, Holds frames index old ∧ frame.Below (old.relocate marker.displaced) := by
    obtain ⟨_, spread, lower⟩ := above _ frame held
    obtain ⟨old, kept, rfl⟩ := holds_spread.mp spread
    rw [origin_displaced] at kept
    exact ⟨old, kept, lower⟩
  intro index
  cases found : frames[index]? with
  | none =>
    rw [Option.map_none, Array.getElem?_eq_none_iff, sized]
    rw [Array.getElem?_eq_none_iff, whole] at found
    by_contra early
    have := marker.lt_of_displaced_lt (Nat.lt_of_not_le early) inside
    omega
  | some entry =>
    have inner : index < size := by
      rw [← whole]
      exact (Array.getElem?_eq_some_iff.mp found).1
    have outer : marker.displaced index < moved.size := by
      unfold displaced
      split <;> omega
    cases entry with
    | none =>
      cases stands : moved[marker.displaced index] with
      | none => simp [outer, stands]
      | some frame =>
        have held : Holds moved (marker.displaced index) frame := by
          simp [Holds, outer, stands]
        obtain ⟨old, kept, _⟩ := known held
        rw [Holds, found] at kept
        cases kept
    | some frame =>
      obtain ⟨_, gathered, lower⟩ := below index frame found
      obtain ⟨_, held, rfl⟩ := (holds_gather inside sized).mp gathered
      obtain ⟨old, kept, upper⟩ := known held
      obtain rfl := kept.unique found
      rw [lower.eq_relocate upper] at held
      exact held

end LineMarker

namespace Verify
variable {marker : LineMarker}

theorem Flow.instruction_withLine {flow : Flow} (inside : marker.position ≤ flow.size) {index : Nat}
    {instruction : Instruction} (present : (flow.withLine marker).instructions[index]? = some instruction) :
    (index = marker.position ∧ instruction = marker.instruction) ∨
      ∃ old, index = marker.displaced old ∧ flow.instructions[old]? = some instruction := by
  rcases marker.eq_displaced index with rfl | same
  · left
    have placed := LineMarker.getElem?_insert_position inside
    exact ⟨rfl, (Option.some.inj (placed.symm.trans present)).symm⟩
  · right
    refine ⟨marker.origin index, same, ?_⟩
    rw [same] at present
    exact (LineMarker.getElem?_insert_displaced inside _).symm.trans present

theorem Flow.stays_withLine {flow : Flow} (inside : marker.position ≤ flow.size) {index : Nat}
    {instruction : Instruction} (present : flow.instructions[index]? = some instruction) :
    (flow.withLine marker).instructions[marker.displaced index]? = some instruction :=
  (LineMarker.getElem?_insert_displaced inside index).trans present

theorem Flow.successor_withLine {flow : Flow} (inside : marker.position ≤ flow.size) {index target : Nat}
    {instruction : Instruction} : target ∈ flow.successors index instruction ↔
      ∃ moved ∈ (flow.withLine marker).successors (marker.displaced index) instruction,
        marker.origin moved = target := by
  rw [← Flow.origin_successors inside]
  exact List.mem_map

/-- Undoing the displacement in frames undoes it in what an instruction does to them. -/
theorem transfer_restored {around : Surroundings} {size index : Nat} (inside : marker.position ≤ size)
    (placed : index < size) {instruction : Instruction} {before after : Frame}
    (done : (transfer around (marker.displaced index) instruction).run before = .ok ((), after)) :
    (transfer around index instruction).run (before.relocate (marker.restored size)) =
      .ok ((), after.relocate (marker.restored size)) := by
  have moved := transfer_relocate (LineMarker.restored_injective inside) done
  rwa [LineMarker.restored_displaced placed] at moved

namespace Setting
variable {setting : Setting} {frames : Array (Option Frame)} (inside : marker.position ≤ setting.flow.size)
  (fixed : ∀ rename, setting.initial.relocate rename = setting.initial)

include inside fixed in
/-- Frames that suit a method suit the marked one. -/
theorem Consistent.withLine (consistent : setting.Consistent frames) :
    (setting.withLine marker).Consistent (marker.spread frames) := by
  have sized := Flow.size_withLine inside
  refine ⟨?_, ?_, ?_, ?_, ?_⟩
  · rw [LineMarker.spread, Array.size_ofFn, consistent.size]
    exact sized.symm
  · obtain ⟨frame, held, below⟩ := consistent.start
    refine ⟨frame.relocate marker.displaced, LineMarker.holds_spread.mpr ⟨frame, held, rfl⟩, ?_⟩
    have moved := below.relocate marker.displaced
    rwa [fixed] at moved
  · intro index instruction before present held
    obtain ⟨frame, known, rfl⟩ := LineMarker.holds_spread.mp held
    rcases Flow.instruction_withLine inside present with ⟨rfl, rfl⟩ | ⟨old, rfl, stands⟩
    · exact ⟨_, rfl⟩
    · rw [LineMarker.origin_displaced] at known
      obtain ⟨after, done⟩ := consistent.accepts old instruction frame stands known
      exact ⟨_, transfer_relocate marker.displaced_injective done⟩
  · intro index instruction before present held target next
    obtain ⟨frame, known, rfl⟩ := LineMarker.holds_spread.mp held
    apply Nat.lt_of_lt_of_eq _ sized.symm
    rcases Flow.instruction_withLine inside present with ⟨rfl, rfl⟩ | ⟨old, rfl, stands⟩
    · obtain rfl := List.mem_singleton.mp next
      rw [LineMarker.origin_position] at known
      have placed := consistent.size ▸ known.inside
      omega
    · rw [LineMarker.origin_displaced] at known
      have inner := (Flow.successor_withLine inside).mpr ⟨target, next, rfl⟩
      exact marker.lt_of_origin_lt (consistent.inside old instruction frame stands known _ inner)
  · intro move before incoming held passes
    obtain ⟨frame, known, rfl⟩ := LineMarker.holds_spread.mp held
    cases passes with
    | @goes instruction source target after present done next =>
      rcases Flow.instruction_withLine inside present with ⟨rfl, rfl⟩ | ⟨old, rfl, stands⟩
      · obtain rfl := List.mem_singleton.mp next
        cases done
        refine ⟨_, LineMarker.holds_spread.mpr ⟨frame, ?_, rfl⟩, .refl _⟩
        rw [LineMarker.origin_position] at known
        rwa [LineMarker.origin_position_succ]
      · rw [LineMarker.origin_displaced] at known
        obtain ⟨result, ran⟩ := consistent.accepts old instruction frame stands known
        have moved := transfer_relocate marker.displaced_injective ran
        cases done.symm.trans moved
        have inner := (Flow.successor_withLine inside).mpr ⟨target, next, rfl⟩
        obtain ⟨above, kept, below⟩ :=
          consistent.covers ⟨old, _, false⟩ frame result known (.goes stands ran inner)
        exact ⟨_, LineMarker.holds_spread.mpr ⟨above, kept, rfl⟩, below.relocate _⟩
    | @throws instruction source handler present ordinary listed covers =>
      obtain ⟨old_handler, placed, rfl⟩ := List.mem_map.mp listed
      rcases Flow.instruction_withLine inside present with ⟨rfl, rfl⟩ | ⟨old, rfl, stands⟩
      · cases ordinary
      · rw [LineMarker.origin_displaced] at known
        obtain ⟨above, kept, below⟩ := consistent.covers ⟨old, _, true⟩ frame _ known
          (.throws stands ordinary placed (HandlerRange.covers_withLine.mp covers))
        refine ⟨_, LineMarker.holds_spread.mpr ⟨above, ?_, rfl⟩, below.relocate _⟩
        rwa [HandlerRange.withLine, LineMarker.origin_displaced]

section
variable (consistent : (setting.withLine marker).Consistent frames)
include inside consistent

/-- What is known where control enters an instruction, through the marker or not, is known behind it. -/
theorem Consistent.entered {index : Nat} {frame : Frame} (held : Holds frames index frame) :
    ∃ above, Holds frames (marker.displaced (marker.origin index)) above ∧ frame.Below above := by
  rcases marker.eq_displaced index with rfl | same
  · have placed := LineMarker.getElem?_insert_position inside
    have shifted : marker.displaced (marker.origin marker.position) = marker.position + 1 := by
      simp [LineMarker.origin_position, LineMarker.displaced]
    rw [shifted]
    exact consistent.covers ⟨marker.position, marker.position + 1, false⟩ frame frame held
      (.goes placed rfl List.mem_cons_self)
  · exact ⟨frame, same ▸ held, .refl frame⟩

/-- The marked method passes on what an instruction leaves, in one move or, by the marker, in two. -/
theorem Consistent.passed_on {index target : Nat} {instruction : Instruction} {before : Frame}
    (present : setting.flow.instructions[index]? = some instruction)
    (held : Holds frames (marker.displaced index) before)
    (next : target ∈ setting.flow.successors index instruction) : ∃ after above,
      (transfer setting.around (marker.displaced index) instruction).run before = .ok ((), after) ∧
        Holds frames (marker.displaced target) above ∧ after.Below above := by
  have stays := Flow.stays_withLine inside present
  obtain ⟨after, done⟩ := consistent.accepts _ instruction before stays held
  obtain ⟨moved, listed, rfl⟩ := (Flow.successor_withLine inside).mp next
  obtain ⟨frame, kept, below⟩ :=
    consistent.covers ⟨_, moved, false⟩ before after held (.goes stays done listed)
  obtain ⟨above, last, upper⟩ := consistent.entered inside kept
  exact ⟨after, above, done, last, below.trans upper⟩

include fixed in
/-- Frames that suit a marked method suit the method itself. -/
theorem Consistent.withoutLine : setting.Consistent (marker.gather setting.flow.size frames) := by
  have sized : frames.size = setting.flow.size + 1 := consistent.size.trans (Flow.size_withLine inside)
  have gathered {index : Nat} {frame : Frame} : Holds (marker.gather setting.flow.size frames) index frame ↔
      ∃ moved, Holds frames (marker.displaced index) moved ∧
        moved.relocate (marker.restored setting.flow.size) = frame :=
    LineMarker.holds_gather inside sized
  have placed {index : Nat} {instruction : Instruction}
      (present : setting.flow.instructions[index]? = some instruction) : index < setting.flow.size :=
    (Array.getElem?_eq_some_iff.mp present).1
  refine ⟨?_, ?_, ?_, ?_, ?_⟩
  · rw [LineMarker.gather, Array.size_ofFn]
  · obtain ⟨frame, held, below⟩ := consistent.start
    obtain ⟨above, kept, upper⟩ := consistent.entered inside held
    have first : marker.origin 0 = 0 := by simp [LineMarker.origin]
    rw [first] at kept
    refine ⟨_, gathered.mpr ⟨above, kept, rfl⟩, ?_⟩
    have moved := (below.trans upper).relocate (marker.restored setting.flow.size)
    simp only [Setting.withLine] at moved
    rwa [fixed] at moved
  · intro index instruction before present held
    obtain ⟨moved, known, rfl⟩ := gathered.mp held
    have stays := Flow.stays_withLine inside present
    obtain ⟨after, done⟩ := consistent.accepts _ instruction moved stays known
    exact ⟨_, transfer_restored inside (placed present) done⟩
  · intro index instruction before present held target next
    obtain ⟨moved, known, rfl⟩ := gathered.mp held
    obtain ⟨after, above, done, kept, below⟩ := consistent.passed_on inside present known next
    exact marker.lt_of_displaced_lt (sized ▸ kept.inside) inside
  · intro move before incoming held passes
    obtain ⟨moved, known, rfl⟩ := gathered.mp held
    cases passes with
    | @goes instruction source target after present done next =>
      obtain ⟨result, above, ran, kept, below⟩ := consistent.passed_on inside present known next
      cases done.symm.trans (transfer_restored inside (placed present) ran)
      exact ⟨_, gathered.mpr ⟨above, kept, rfl⟩, below.relocate _⟩
    | @throws instruction source handler present ordinary listed covers =>
      have stays := Flow.stays_withLine inside present
      obtain ⟨above, kept, below⟩ := consistent.covers ⟨marker.displaced source, _, true⟩ moved _ known
        (.throws stays ordinary (List.mem_map_of_mem listed) (HandlerRange.covers_withLine.mpr covers))
      exact ⟨_, gathered.mpr ⟨above, kept, rfl⟩, below.relocate _⟩

end

end Setting

namespace Verifier
variable {verifier : Verifier} {method : Method}

/-- The method is refused for a rule that another order of the visits may find unbroken. -/
def RefusesByOrder (verifier : Verifier) (method : Method) : Prop :=
  ∃ setting rejection, verifier.setting method = .ok setting ∧
    verifier.analyze method = .error rejection ∧ setting.Loses rejection

/-- The bound on the number of visits is not what ends the analysis. -/
def Uncapped (verifier : Verifier) (method : Method) : Prop :=
  ∀ rejection, verifier.analyze method = .error rejection →
    rejection.violation ≠ .visitLimit verifier.maxVisits

theorem setting_fixed {setting : Setting} (prepared : verifier.setting method = .ok setting)
    (rename : Nat → Nat) : setting.initial.relocate rename = setting.initial := by
  obtain ⟨type, _, _, _, placed, _⟩ := setting_ok prepared
  exact initialFrame_relocate rename placed

theorem setting_inside {setting : Setting} (inside : marker.position ≤ method.instructions.size)
    (prepared : verifier.setting method = .ok setting) : marker.position ≤ setting.flow.size := by
  obtain ⟨type, _, built, _, _, _⟩ := setting_ok prepared
  rw [Flow.size, (Flow.ofMethod_ok built).1]
  exact inside

theorem Uncapped.of_accepted {frames : Array (Option Frame)}
    (accepted : verifier.analyze method = .ok frames) : verifier.Uncapped method := by
  intro rejection refused
  cases accepted.symm.trans refused

/-- Only loads from arrays of references and returns of constructors are refused so. -/
theorem RefusesByOrder.cause (refuses : verifier.RefusesByOrder method) :
    .simple .aaload ∈ method.instructions ∨ method.name = Step.constructorName := by
  obtain ⟨setting, rejection, prepared, _, instruction, present, lost⟩ := refuses
  obtain ⟨type, _, built, around, _⟩ := setting_ok prepared
  rw [(Flow.ofMethod_ok built).1] at present
  obtain ⟨index, violation⟩ := rejection
  cases lost with
  | element => exact .inl (Array.mem_of_getElem? present)
  | receiver constructs =>
    right
    rw [← around] at constructs
    exact eq_of_beq constructs

theorem RefusesByOrder.of_consistent {setting : Setting} {frames : Array (Option Frame)}
    (code : method.access.hasNoCode = false) (prepared : verifier.setting method = .ok setting)
    (consistent : setting.Consistent frames) (uncapped : verifier.Uncapped method) :
    (∃ found, verifier.analyze method = .ok found) ∨ verifier.RefusesByOrder method := by
  rcases analyze_of_consistent code prepared consistent with accepted | ⟨rejection, refused, reason⟩
  · exact .inl accepted
  · rcases reason with lost | capped
    · exact .inr ⟨setting, rejection, prepared, refused, lost⟩
    · exact absurd capped (uncapped rejection refused)

section
variable (code : method.access.hasNoCode = false)
  (inside : marker.position ≤ method.instructions.size)
  (placed : (position? method.instructions marker.start).isSome = true)

include code inside placed

theorem keeps_of_accepted {frames moved : Array (Option Frame)}
    (accepted : verifier.analyze method = .ok frames)
    (marked : verifier.analyze (method.withLine marker) = .ok moved) : marker.Keeps frames moved := by
  obtain ⟨setting, prepared, consistent, least, _⟩ := analyze_least code accepted
  have present : (method.withLine marker).access.hasNoCode = false := code
  obtain ⟨other, also, sound, lowest, _⟩ := analyze_least present marked
  obtain ⟨same, again, rfl⟩ := (setting_withLine inside placed).mp also
  obtain rfl : setting = same := Except.ok.inj (prepared.symm.trans again)
  have within := setting_inside inside prepared
  have fixed := setting_fixed prepared
  have sized : moved.size = setting.flow.size + 1 := sound.size.trans (Flow.size_withLine within)
  have below := least _ (sound.withoutLine within fixed)
  have above := lowest _ (consistent.withLine within fixed)
  exact LineMarker.keeps_of_below within consistent.size sized below above

/-- A marker leaves an accepted method accepted, or makes the analysis meet a rule in an order
in which it is broken. -/
theorem accepted_withLine (uncapped : verifier.Uncapped (method.withLine marker))
    {frames : Array (Option Frame)} (accepted : verifier.analyze method = .ok frames) :
    (∃ moved, verifier.analyze (method.withLine marker) = .ok moved ∧ marker.Keeps frames moved) ∨
      verifier.RefusesByOrder (method.withLine marker) := by
  obtain ⟨setting, prepared, consistent, _⟩ := analyze_least code accepted
  have also : verifier.setting (method.withLine marker) = .ok (setting.withLine marker) :=
    (setting_withLine inside placed).mpr ⟨setting, prepared, rfl⟩
  have sound := consistent.withLine (setting_inside inside prepared) (setting_fixed prepared)
  have present : (method.withLine marker).access.hasNoCode = false := code
  rcases RefusesByOrder.of_consistent present also sound uncapped with
    ⟨moved, marked⟩ | refused
  · exact .inl ⟨moved, marked, keeps_of_accepted code inside placed accepted marked⟩
  · exact .inr refused

theorem accepted_withoutLine (uncapped : verifier.Uncapped method) {moved : Array (Option Frame)}
    (marked : verifier.analyze (method.withLine marker) = .ok moved) :
    (∃ frames, verifier.analyze method = .ok frames ∧ marker.Keeps frames moved) ∨
      verifier.RefusesByOrder method := by
  have present : (method.withLine marker).access.hasNoCode = false := code
  obtain ⟨other, also, sound, _⟩ := analyze_least present marked
  obtain ⟨setting, prepared, rfl⟩ := (setting_withLine inside placed).mp also
  have consistent := sound.withoutLine (setting_inside inside prepared) (setting_fixed prepared)
  rcases RefusesByOrder.of_consistent code prepared consistent uncapped with
    ⟨frames, accepted⟩ | refused
  · exact .inl ⟨frames, accepted, keeps_of_accepted code inside placed accepted marked⟩
  · exact .inr refused

/-- A line marker decides nothing but the order of the visits: the method and the marked one are
accepted alike and with the same frames, unless one of them is refused for a rule that joins forget. -/
theorem analyze_withLine (uncapped : verifier.Uncapped method)
    (bounded : verifier.Uncapped (method.withLine marker)) :
    (∀ frames, verifier.analyze method = .ok frames →
      (∃ moved, verifier.analyze (method.withLine marker) = .ok moved ∧ marker.Keeps frames moved) ∨
        verifier.RefusesByOrder (method.withLine marker)) ∧
    ∀ moved, verifier.analyze (method.withLine marker) = .ok moved →
      (∃ frames, verifier.analyze method = .ok frames ∧ marker.Keeps frames moved) ∨
        verifier.RefusesByOrder method := by
  constructor
  · intro frames accepted
    exact accepted_withLine code inside placed bounded accepted
  · intro moved marked
    exact accepted_withoutLine code inside placed uncapped marked

/-- Outside of constructors, and without loads from arrays of references, a line marker does not
influence the verdict. -/
theorem accepted_withLine_iff (plain : .simple .aaload ∉ method.instructions)
    (ordinary : method.name ≠ Step.constructorName) (uncapped : verifier.Uncapped method)
    (bounded : verifier.Uncapped (method.withLine marker)) :
    (∃ moved, verifier.analyze (method.withLine marker) = .ok moved) ↔
      ∃ frames, verifier.analyze method = .ok frames := by
  constructor
  · intro found
    obtain ⟨moved, marked⟩ := found
    rcases accepted_withoutLine code inside placed uncapped marked with ⟨frames, accepted, _⟩ | refuses
    · exact ⟨frames, accepted⟩
    · rcases refuses.cause with loads | constructs
      · exact absurd loads plain
      · exact absurd constructs ordinary
  · intro found
    obtain ⟨frames, accepted⟩ := found
    rcases accepted_withLine code inside placed bounded accepted with ⟨moved, marked, _⟩ | refuses
    · exact ⟨moved, marked⟩
    · rcases refuses.cause with loads | constructs
      · rcases (LineMarker.mem_insert _).mp loads with same | loads
        · cases same
        · exact absurd loads plain
      · exact absurd constructs ordinary

end

/-- Makes an object and returns it. -/
def build : Method where
  access := ⟨8⟩
  name := "build"
  descriptor := "()Ljava/lang/Object;"
  signature := none
  exceptions := []
  instructions := #[.label ⟨0⟩, .type .new "A", .simple .dup,
    .method .invokeSpecial "A" "<init>" "()V" false, .simple .areturn]
  ranges := []
  variableTable := none
  maxStack := 2
  maxLocals := 0

def buildVerifier : Verifier := ⟨"Main", 2, 100⟩

def buildMarker : LineMarker := ⟨1, 7, ⟨0⟩⟩

theorem analyze_withLine_build :
    (∀ frames, buildVerifier.analyze build = .ok frames →
      (∃ moved, buildVerifier.analyze (build.withLine buildMarker) = .ok moved ∧
        buildMarker.Keeps frames moved) ∨ buildVerifier.RefusesByOrder (build.withLine buildMarker)) ∧
    ∀ moved, buildVerifier.analyze (build.withLine buildMarker) = .ok moved →
      (∃ frames, buildVerifier.analyze build = .ok frames ∧ buildMarker.Keeps frames moved) ∨
        buildVerifier.RefusesByOrder build := by
  have accepted : buildVerifier.analyze build = .ok #[some ⟨[], []⟩, some ⟨[], []⟩,
      some ⟨[], [.uninitialized 1 "A"]⟩, some ⟨[], [.uninitialized 1 "A", .uninitialized 1 "A"]⟩,
      some ⟨[], [.reference "A"]⟩] := by decide +kernel
  have marked : buildVerifier.analyze (build.withLine buildMarker) = .ok #[some ⟨[], []⟩, some ⟨[], []⟩,
      some ⟨[], []⟩, some ⟨[], [.uninitialized 2 "A"]⟩,
      some ⟨[], [.uninitialized 2 "A", .uninitialized 2 "A"]⟩, some ⟨[], [.reference "A"]⟩] := by
    decide +kernel
  exact analyze_withLine (by decide) (by decide) (by decide) (.of_accepted accepted) (.of_accepted marked)

/-- Takes one of two arrays of different primitive types, and loads an element of it as an object. -/
def choose : Method where
  access := ⟨8⟩
  name := "choose"
  descriptor := "(I[I[J)Ljava/lang/Object;"
  signature := none
  exceptions := []
  instructions := #[.variable .iload 0, .jump .ifeq ⟨0⟩, .variable .aload 1, .jump .goto ⟨1⟩, .label ⟨0⟩,
    .variable .aload 2, .label ⟨1⟩, .simple .iconst0, .simple .aaload, .simple .areturn]
  ranges := []
  variableTable := none
  maxStack := 2
  maxLocals := 3

def chooseMarker : LineMarker := ⟨3, 7, ⟨0⟩⟩

/-- The arrays are joined to an object before the element is loaded; the marker delays the first of
them, and the second is looked at alone. -/
theorem choose_refused_with_line :
    choose.access.hasNoCode = false ∧ chooseMarker.position ≤ choose.instructions.size ∧
      (position? choose.instructions chooseMarker.start).isSome = true ∧
        buildVerifier.Uncapped choose ∧ buildVerifier.Uncapped (choose.withLine chooseMarker) ∧
          ¬ ((∃ moved, buildVerifier.analyze (choose.withLine chooseMarker) = .ok moved) ↔
            ∃ frames, buildVerifier.analyze choose = .ok frames) := by
  have accepted : (buildVerifier.analyze choose).toOption.isSome = true := by decide +kernel
  have refused : buildVerifier.analyze (choose.withLine chooseMarker) =
      .error ⟨9, .typeMismatch .referenceArray (.name "[J")⟩ := by decide +kernel
  obtain ⟨frames, accepted⟩ : ∃ frames, buildVerifier.analyze choose = .ok frames := by
    cases found : buildVerifier.analyze choose with
    | ok frames => exact ⟨frames, rfl⟩
    | error rejection => simp [found, Except.toOption] at accepted
  refine ⟨by decide, by decide, by decide, .of_accepted accepted, ?_, ?_⟩
  · intro rejection found
    cases refused.symm.trans found
    exact Violation.noConfusion
  · intro same
    obtain ⟨moved, found⟩ := same.mpr ⟨frames, accepted⟩
    cases refused.symm.trans found

end Verifier
end Verify
end Bytecode
