import Bytecode.Proofs.FixedPoint
import Bytecode.Proofs.TagRules

/-! Whether the analysis of a method that has consistent frames goes through. A frame that lies
below one that an instruction accepts is accepted as well, unless the rule asks for something
that joins forget; then the order of the visits decides. -/

namespace Bytecode.Verify
open List

/-- A frame breaks the rule of an instruction although a join that covers it need not. The
elements of an array are forgotten with its type, and the receiver of a constructor with its slot. -/
inductive Surroundings.LostInJoins (around : Surroundings) : Instruction → Violation → Prop where
  | element (found : Finding) :
      LostInJoins around (.simple .aaload) (.typeMismatch .referenceArray found)
  | receiver {opcode : Opcode} {returned : Option Demand} (constructs : around.isConstructor = true)
      (returns : Effect.ofReturn? opcode = some returned) (found : Finding) :
      LostInJoins around (.simple opcode) (.typeMismatch .initializedThis found)

theorem Demand.Meets.lower {demand : Demand} {tag : Tag} {lower upper : Value}
    (known : demand.tag? = some tag) (meets : demand.Meets upper) (below : lower.Below upper) :
    demand.Meets lower := by
  cases demand with
  | reference =>
    rcases Value.below_iff.mp below with same | ⟨empty, _⟩ | ⟨⟨name, object⟩, _⟩
    · rw [same]
      exact meets
    · rw [empty]
      rfl
    · rw [object]
      rfl
  | exactly wanted =>
    obtain rfl : upper = wanted := eq_of_beq meets
    have primitive : upper.isReference = false := by
      by_contra object
      simp [Demand.tag?, object] at known
    rcases Value.below_iff.mp below with same | ⟨_, name, object⟩ | ⟨_, object⟩
    · rw [same]
      exact meets
    · rw [object] at primitive
      cases primitive
    · rw [object] at primitive
      cases primitive

theorem meets_lower {demands : List Demand} {tags : List Tag} {lower upper : List Value}
    (known : demands.mapM Demand.tag? = some tags) (meets : Forall₂ Demand.Meets demands upper)
    (below : Forall₂ Value.Below lower upper) : Forall₂ Demand.Meets demands lower := by
  induction meets generalizing tags lower with
  | nil =>
    cases below
    exact .nil
  | cons met rest ih =>
    cases below with
    | cons first others =>
      simp only [List.mapM_cons, Option.pure_def, Option.bind_eq_bind, Option.bind_eq_some_iff] at known
      obtain ⟨tag, here, later, there, _⟩ := known
      exact .cons (met.lower here first) (ih there others)

theorem stackHeight_below {lower upper : List Value} (below : Forall₂ Value.Below lower upper) :
    stackHeight lower = stackHeight upper := by
  induction below with
  | nil => rfl
  | cons first _ ih => simp only [stackHeight, first.size_eq, ih]

theorem Surroundings.Fits.lower {around : Surroundings} {result : Option Value} {lower upper : List Value}
    (fits : around.Fits result upper) (below : Forall₂ Value.Below lower upper) :
    around.Fits result lower := by
  unfold Surroundings.Fits at *
  rw [stackHeight_append] at *
  rw [stackHeight_below below]
  exact fits

theorem isWide_below {lower upper : List Value} (below : Forall₂ Value.Below lower upper) :
    lower.map Value.isWide = upper.map Value.isWide := by
  apply List.forall₂_eq_eq_eq ▸ List.rel_map ?_ below
  exact fun _ _ ordered => ordered.isWide_eq

/-- A local that can be used as a value of some kind can be used so in a lower frame. -/
theorem held_lower {lower upper : List Value} (below : Forall₂ Value.BelowLocal lower upper) {slot : Nat}
    {value kind : Value} {tag : Tag} (known : (Demand.ofKind kind).tag? = some tag)
    (held : upper[slot]? = some value) (usable : value ≠ .empty) (serves : value.Serves kind) :
    ∃ other, lower[slot]? = some other ∧ other.Below value ∧ other ≠ .empty ∧ other.Serves kind := by
  have entries := forall₂_getElem? below slot
  rw [held] at entries
  generalize found : lower[slot]? = entry at entries
  cases entries with
  | @some other _ ordered =>
    rcases ordered with unusable | ordered
    · exact absurd unusable usable
    · refine ⟨other, rfl, ordered, ?_, ?_⟩
      · intro empty
        subst empty
        exact usable ordered.of_empty
      · exact Demand.meets_ofKind.mp ((Demand.meets_ofKind.mpr serves).lower known ordered)

theorem isReference_lower {lower upper : Value} (below : lower.Below upper)
    (object : upper.isReference = true) : lower.isReference = true := by
  have meets : Demand.reference.Meets upper := object
  exact meets.lower rfl below

namespace Action
variable {around : Surroundings}

/-- What an action does to a frame it does to every lower one, unless it looks at the elements
of an array or leaves the method. -/
theorem Performs.lowered {action : Action} {lower upper after : Frame} {rule : Rule}
    (performs : Performs around action upper after) (below : lower.Below upper)
    (known : action.rule? = some rule) (plain : action ≠ .element)
    (going : ∀ returned, action ≠ .leave returned) : ∃ result, Performs around action lower result := by
  obtain ⟨held, stack⟩ := lower
  obtain ⟨locals, entries⟩ := below
  cases performs with
  | @effect fixed popped rest kept meets fits =>
    obtain ⟨upper, lower, rfl, first, second⟩ := forall₂_append_right entries
    simp only [rule?, Option.bind_eq_bind, Option.bind_eq_some_iff] at known
    obtain ⟨operands, kinds, _⟩ := known
    exact ⟨_, .effect (meets_lower kinds meets first) (fits.lower second)⟩
  | @shuffle opcode form taken rest kept listed widths fits =>
    obtain ⟨upper, lower, rfl, first, second⟩ := forall₂_append_right entries
    refine ⟨_, .shuffle listed ((isWide_below first).trans widths) ?_⟩
    rw [stackHeight_append] at *
    rw [stackHeight_below second, stackHeight_below (StackForm.arrange_forall₂ form first)]
    exact fits
  | element => exact absurd rfl plain
  | @load slot kind value rest kept here usable serves fits =>
    obtain ⟨tag, kinds, _⟩ := Option.map_eq_some_iff.mp known
    obtain ⟨other, found, ordered, present, suits⟩ := held_lower locals kinds here usable serves
    refine ⟨_, .load found present suits ?_⟩
    have height := stackHeight_below (.cons ordered entries)
    simp only [stackHeight, Surroundings.Fits, Option.toList_some, List.singleton_append] at fits height ⊢
    rw [height]
    simpa using fits
  | @consult slot kind value rest kept here usable serves =>
    obtain ⟨tag, kinds, _⟩ := Option.map_eq_some_iff.mp known
    obtain ⟨other, found, _, present, suits⟩ := held_lower locals kinds here usable serves
    exact ⟨_, .consult found present suits⟩
  | @store slot kinds value rest kept meets inside =>
    obtain ⟨tags, wanted, _⟩ := Option.map_eq_some_iff.mp known
    obtain ⟨kind, listed, met⟩ := meets
    obtain ⟨tag, _, tagged⟩ := Demand.tag?_of_mem wanted listed
    obtain ⟨other, others, ordered, _, rfl⟩ := List.forall₂_cons_right_iff.mp entries
    refine ⟨_, .store ⟨kind, listed, met.lower tagged ordered⟩ ?_⟩
    rw [ordered.size_eq, locals.length_eq]
    exact inside
  | leave => exact absurd rfl (going _)
  | @receive arguments result popped receiver rest kept meets object initialized fits =>
    obtain ⟨upper, lower, rfl, first, second⟩ := forall₂_append_right entries
    obtain ⟨other, others, ordered, below, rfl⟩ := List.forall₂_cons_right_iff.mp second
    simp only [rule?, Option.bind_eq_bind, Option.bind_eq_some_iff] at known
    obtain ⟨operands, kinds, _⟩ := known
    refine ⟨_, .receive (meets_lower kinds meets first) (isReference_lower ordered object) ?_ (fits.lower below)⟩
    by_contra raw
    have same := ordered.eq_of_uninitialized (.inl (by simpa using raw))
    rw [same, initialized] at raw
    exact raw rfl
  | @construct arguments result popped receiver object rest kept middle meets made replaced fits =>
    obtain ⟨upper, lower, rfl, first, second⟩ := forall₂_append_right entries
    obtain ⟨other, others, ordered, below, rfl⟩ := List.forall₂_cons_right_iff.mp second
    simp only [rule?, Option.bind_eq_bind, Option.bind_eq_some_iff] at known
    obtain ⟨operands, kinds, _⟩ := known
    have raw := constructed?_uninitialized made
    obtain rfl := ordered.eq_of_uninitialized (.inr raw)
    subst replaced
    have left : (⟨held, others⟩ : Frame).Below ⟨kept, rest⟩ := ⟨locals, below⟩
    exact ⟨_, .construct (meets_lower kinds meets first) made rfl (fits.lower (left.replace raw object).stack)⟩

theorem of?_element {index : Nat} {instruction : Instruction}
    (known : of? index instruction = some .element) : instruction = .simple .aaload := by
  rcases of?_cases known with ⟨opcode, rfl, same⟩ | ⟨opcode, slot, rfl, found⟩ | ⟨_, _, _, same⟩ |
    ⟨opcode, owner, name, descriptor, onInterface, type, rfl, _, same⟩ | ⟨_, same⟩
  · cases opcode <;> first | rfl | cases same
  · cases opcode <;> cases found
  · cases same
  · rcases ofMethod_cases opcode name type with ⟨_, _, found⟩ | ⟨_, _, found⟩ | ⟨_, _, found⟩
    all_goals
      rw [found] at same
      cases same
  · cases same

end Action

/-- Of an array in order with one that has an element, the element can only be missing because
it is no reference. -/
theorem arrayElement_lower {lower upper other : Value} (below : lower.Below upper)
    (found : Step.arrayElement upper = .ok other) :
    (∃ value, Step.arrayElement lower = .ok value) ∨
      ∃ text, Step.arrayElement lower = .error (.typeMismatch .referenceArray (.name text)) := by
  rcases Value.below_iff.mp below with same | ⟨empty, _⟩ | ⟨⟨name, object⟩, _⟩
  · rw [same]
    exact .inl ⟨other, found⟩
  · rw [empty]
    exact .inl ⟨_, rfl⟩
  · subst object
    simp only [Step.arrayElement]
    split
    · split
      · split
        · exact .inl ⟨_, rfl⟩
        · exact .inr ⟨name, rfl⟩
      · exact .inr ⟨name, rfl⟩
    · exact .inl ⟨_, rfl⟩

theorem Step.run_then {α β : Type} {first : Step α} {next : α → Step β} {before middle : Frame}
    {outcome : α} (done : first.run before = .ok (outcome, middle)) :
    (first >>= next).run before = (next outcome).run middle := by
  rw [StateT.run_bind, done]
  rfl

section
variable {around : Surroundings} {lower upper after : Frame}

/-- Below a frame whose array has an element, an array lacks one only if its elements are no references. -/
theorem Action.Performs.element_lowered (performs : Action.Performs around .element upper after)
    (below : lower.Below upper) : ∃ array rest, lower.stack = .int :: array :: rest ∧ array.isReference = true ∧
      ((∃ result, Action.Performs around .element lower result) ∨
        ∃ text, Step.arrayElement array = .error (.typeMismatch .referenceArray (.name text))) := by
  obtain ⟨held, stack⟩ := lower
  obtain ⟨locals, entries⟩ := below
  cases performs with
  | @element array value rest kept object found fits =>
    obtain ⟨index, others, first, more, rfl⟩ := List.forall₂_cons_right_iff.mp entries
    obtain ⟨other, others, second, below, rfl⟩ := List.forall₂_cons_right_iff.mp more
    have whole : Effect.int.Meets .int := rfl
    obtain rfl : index = .int := eq_of_beq (whole.lower rfl first)
    have object := isReference_lower second object
    refine ⟨other, others, rfl, object, ?_⟩
    rcases arrayElement_lower second found with ⟨element, present⟩ | missing
    · left
      have room : around.Fits (some element) others := by
        have height := stackHeight_below (.cons (arrayElement_below second present found) below)
        simpa [Surroundings.Fits, height] using fits
      exact ⟨_, .element object present room⟩
    · exact .inr missing

private theorem element_lower (below : lower.Below upper)
    (performs : Action.Performs around .element upper after) :
    (∃ result, (Step.simple around .aaload).run lower = .ok ((), result)) ∨
      ∃ text, (Step.simple around .aaload).run lower =
        .error (.typeMismatch .referenceArray (.name text)) := by
  obtain ⟨held, stack⟩ := lower
  obtain ⟨array, rest, same, object, ⟨result, loads⟩ | ⟨text, missing⟩⟩ := performs.element_lowered below
  · exact .inl ⟨result, (Action.follows_simple .aaload _ _).mpr ⟨.element, rfl, loads⟩⟩
  · right
    obtain rfl : stack = .int :: array :: rest := same
    have whole : Effect.int.Meets .int := rfl
    have top : (Step.popAs Effect.int).run ⟨held, .int :: array :: rest⟩ =
        .ok (.int, ⟨held, array :: rest⟩) := Step.popAs_ok.mpr ⟨whole, rfl⟩
    have next : (Step.popAs .reference).run ⟨held, array :: rest⟩ = .ok (array, ⟨held, rest⟩) :=
      Step.popAs_ok.mpr ⟨object, rfl⟩
    refine ⟨text, ?_⟩
    show (do
      let _ ← Step.popAs Effect.int
      let array ← Step.popAs .reference
      let element ← (Step.arrayElement array : Except Violation Value)
      Step.push around.maxStack element : Step Unit).run _ = _
    rw [Step.run_then top, Step.run_then next, missing]
    rfl

private theorem checkReceiver_run (around : Surroundings) (frame : Frame) :
    (Action.checkReceiver around).run frame = .ok ((), frame) ∨
      around.isConstructor = true ∧ ∃ found, (Action.checkReceiver around).run frame =
        .error (.typeMismatch .initializedThis found) := by
  have first : (get : Step Frame).run frame = .ok (frame, frame) := Step.get_ok.mpr ⟨rfl, rfl⟩
  rw [Action.checkReceiver, Step.run_then first]
  split
  next name constructs held => exact .inr ⟨constructs, _, rfl⟩
  next => exact .inl rfl

private theorem leave_lower {opcode : Opcode} {returned : Option Demand} {rule : Rule}
    (below : lower.Below upper) (returns : Effect.ofReturn? opcode = some returned)
    (known : (Action.leave returned).rule? = some rule)
    (performs : Action.Performs around (.leave returned) upper after) :
    (∃ result, (Step.simple around opcode).run lower = .ok ((), result)) ∨
      around.isConstructor = true ∧ ∃ found, (Step.simple around opcode).run lower =
        .error (.typeMismatch .initializedThis found) := by
  obtain ⟨held, stack⟩ := lower
  obtain ⟨locals, entries⟩ := below
  cases performs with
  | @leave _ popped rest kept declared meets initialized =>
    obtain ⟨taken, others, rfl, first, second⟩ := forall₂_append_right entries
    have tags : ∃ tags, returned.toList.mapM Demand.tag? = some tags := by
      cases returned with
      | none => exact ⟨[], rfl⟩
      | some demand =>
        obtain ⟨tag, found, _⟩ := Option.map_eq_some_iff.mp known
        exact ⟨[tag], by simp [found]⟩
    obtain ⟨tags, kinds⟩ := tags
    have popped : (Step.popEach returned.toList).run ⟨held, taken ++ others⟩ = .ok ((), ⟨held, others⟩) :=
      Step.popEach_ok.mpr ⟨taken, meets_lower kinds meets first, rfl⟩
    have simple : Step.simple around opcode = Step.leave around opcode returned := by
      cases opcode <;> cases returns <;> rfl
    rw [simple]
    subst declared
    rw [Action.leave_eq, Step.run_then popped]
    rcases checkReceiver_run around ⟨held, others⟩ with kept | refused
    · exact .inl ⟨_, kept⟩
    · exact .inr refused

end

/-- An instruction that accepts a frame accepts every lower one, or breaks a rule on it that is
lost in joins. -/
theorem transfer_lower {around : Surroundings} {index : Nat} {instruction : Instruction}
    {lower upper after : Frame} (below : lower.Below upper)
    (accepted : (transfer around index instruction).run upper = .ok ((), after)) :
    (∃ result, (transfer around index instruction).run lower = .ok ((), result)) ∨
      ∃ violation, (transfer around index instruction).run lower = .error violation ∧
        around.LostInJoins instruction violation := by
  obtain ⟨action, known, performs⟩ := (Action.transfer_follows index instruction _ _).mp accepted
  obtain ⟨rule, ruled, _⟩ := Action.of?_has known
  by_cases element : action = .element
  · subst element
    obtain rfl := Action.of?_element known
    rcases element_lower below performs with done | ⟨text, refused⟩
    · exact .inl done
    · exact .inr ⟨_, refused, .element _⟩
  by_cases leaves : ∃ returned, action = .leave returned
  · obtain ⟨returned, rfl⟩ := leaves
    obtain ⟨opcode, returns, rfl⟩ := Action.of?_comesFrom known
    rcases leave_lower below returns ruled performs with done | ⟨constructs, found, refused⟩
    · exact .inl done
    · exact .inr ⟨_, refused, .receiver constructs returns found⟩
  · left
    obtain ⟨result, done⟩ := performs.lowered below ruled element fun returned same => leaves ⟨returned, same⟩
    exact ⟨result, (Action.transfer_follows index instruction _ _).mpr ⟨action, known, done⟩⟩

namespace Setting
variable {setting : Setting} {frames : Array (Option Frame)} {progress : Progress}

/-- A frame that a known one at the same index covers. -/
structure Covered (setting : Setting) (frames : Array (Option Frame)) (index : Nat) (frame : Frame) :
    Prop where
  width : frame.locals.length = setting.initial.locals.length
  above : ∃ above, Holds frames index above ∧ frame.Below above

theorem Consistent.covered (consistent : setting.Consistent frames) :
    setting.Carries (setting.Covered frames) where
  initial := ⟨rfl, consistent.start⟩
  width _ _ covered := covered.width
  moves := by
    intro move before incoming covered passes
    obtain ⟨above, held, below⟩ := covered.above
    exact ⟨passes.width.trans covered.width, consistent.passes_below held below passes⟩
  merges := by
    intro index held incoming merged covered also joined
    have same := covered.width.trans also.width.symm
    refine ⟨(Frame.merge_locals_length joined).trans covered.width, ?_⟩
    obtain ⟨above, kept, below⟩ := covered.above
    obtain ⟨other, again, lower⟩ := also.above
    obtain rfl := kept.unique again
    exact ⟨above, kept, (Frame.merge_ok same joined).2.2 above below lower⟩

/-- A frame that is covered where it arrives is taken in. -/
theorem arrive_covered {target : Nat} {incoming : Frame} (source : Nat)
    (known : ∀ index frame, Holds progress.frames index frame → setting.Covered frames index frame)
    (covered : setting.Covered frames target incoming) :
    ∃ next, progress.arrive setting.flow source target incoming = .ok next := by
  unfold Progress.arrive
  cases found : progress.frames[target]?.join with
  | none => exact ⟨_, rfl⟩
  | some held =>
    obtain ⟨above, kept, below⟩ := covered.above
    obtain ⟨other, again, lower⟩ := (known target held (holds_iff.mp found)).above
    obtain rfl := kept.unique again
    obtain ⟨merged, joined⟩ := Frame.merge_of_below lower below
    simp only [joined]
    exact ⟨_, rfl⟩

theorem arrive_all_covered (consistent : setting.Consistent frames) {source : Nat}
    {passed : List (Nat × Frame)} (size : progress.frames.size = setting.flow.size)
    (known : ∀ index frame, Holds progress.frames index frame → setting.Covered frames index frame)
    (good : ∀ target incoming, (target, incoming) ∈ passed →
      target < setting.flow.size ∧ setting.Covered frames target incoming) :
    ∃ next, passed.foldlM (fun progress edge =>
      progress.arrive setting.flow source edge.1 edge.2) progress = .ok next := by
  induction passed generalizing progress with
  | nil => exact ⟨progress, rfl⟩
  | cons edge rest ih =>
    obtain ⟨target, incoming⟩ := edge
    have fresh := good target incoming List.mem_cons_self
    obtain ⟨middle, first⟩ := arrive_covered source known fresh.2
    have single : [(target, incoming)].foldlM (fun progress edge =>
        progress.arrive setting.flow source edge.1 edge.2) progress = .ok middle := by
      simp [first]
    obtain ⟨grows, still, _⟩ := arrive_all consistent.covered single size known fun other frame listed =>
      good other frame (List.mem_singleton.mp listed ▸ List.mem_cons_self)
    obtain ⟨next, arrived⟩ := ih (grows.size.trans size) still
      fun other frame listed => good other frame (List.mem_cons_of_mem _ listed)
    refine ⟨next, ?_⟩
    rw [List.foldlM_cons]
    exact except_bind_ok.mpr ⟨middle, first, arrived⟩

/-- The rejection is one that the order of the visits decides. -/
def Loses (setting : Setting) (rejection : Rejection) : Prop :=
  ∃ instruction, setting.flow.instructions[rejection.index]? = some instruction ∧
    setting.around.LostInJoins instruction rejection.violation

/-- What holds of the progress while every known frame is covered. -/
structure Under (setting : Setting) (frames : Array (Option Frame)) (progress : Progress) : Prop where
  size : progress.frames.size = setting.flow.size
  known : ∀ index frame, Holds progress.frames index frame → setting.Covered frames index frame

theorem edges_covered (consistent : setting.Consistent frames) {index : Nat} {instruction : Instruction}
    {before : Frame} (present : setting.flow.instructions[index]? = some instruction)
    (covered : setting.Covered frames index before) :
    (∃ passed, setting.flow.edges setting.around index instruction before = .ok passed) ∨
      ∃ rejection, setting.flow.edges setting.around index instruction before = .error rejection ∧
        setting.Loses rejection := by
  obtain ⟨above, held, below⟩ := covered.above
  obtain ⟨after, accepted⟩ := consistent.accepts index instruction above present held
  rcases transfer_lower below accepted with ⟨result, done⟩ | ⟨violation, refused, lost⟩
  · left
    have inside : (setting.flow.successors index instruction).any (setting.flow.size ≤ ·) = false := by
      apply List.any_eq_false.mpr
      intro target next
      have inside := consistent.inside index instruction above present held target next
      simpa using inside
    simp only [Flow.edges, done, Except.mapError, inside]
    exact ⟨_, rfl⟩
  · right
    refine ⟨⟨index, violation⟩, ?_, instruction, present, lost⟩
    simp only [Flow.edges, refused, Except.mapError]
    rfl

theorem Under.visit (consistent : setting.Consistent frames)
    (entries : ∀ handler ∈ setting.flow.handlers, handler.entry < setting.flow.size)
    (under : setting.Under frames progress) (index : Nat) :
    (∃ next, setting.flow.visit setting.around progress index = .ok next ∧ setting.Under frames next) ∨
      ∃ rejection, setting.flow.visit setting.around progress index = .error rejection ∧
        setting.Loses rejection := by
  unfold Flow.visit
  split
  next instruction before present known =>
    have held := holds_iff.mp known
    have covered := under.known index before held
    rcases edges_covered consistent present covered with ⟨passed, found⟩ | ⟨rejection, refused, lost⟩
    · left
      have good := consistent.covered.edges entries present covered found
      obtain ⟨next, arrived⟩ := arrive_all_covered consistent under.size under.known good
      obtain ⟨grows, still, _⟩ := arrive_all consistent.covered arrived under.size under.known good
      refine ⟨next, ?_, grows.size.trans under.size, still⟩
      exact except_bind_ok.mpr ⟨passed, found, arrived⟩
    · right
      refine ⟨rejection, ?_, lost⟩
      rw [refused]
      rfl
  next => exact .inl ⟨progress, rfl, under⟩

/-- With consistent frames above it a run ends well, at its limit, or at a rule lost in joins. -/
theorem Under.settle (limit visits : Nat) (consistent : setting.Consistent frames)
    (entries : ∀ handler ∈ setting.flow.handlers, handler.entry < setting.flow.size)
    (under : setting.Under frames progress) :
    (∃ settled, setting.flow.settle setting.around limit visits progress = .ok settled) ∨
      ∃ rejection, setting.flow.settle setting.around limit visits progress = .error rejection ∧
        (setting.Loses rejection ∨ rejection.violation = .visitLimit limit) := by
  induction visits generalizing progress with
  | zero =>
    unfold Flow.settle
    split
    next => exact .inl ⟨progress, rfl⟩
    next index rest queue => exact .inr ⟨_, rfl, .inr rfl⟩
  | succ visits ih =>
    unfold Flow.settle
    split
    next => exact .inl ⟨progress, rfl⟩
    next index rest queue =>
      have popped : setting.Under frames { progress with queue := rest } := ⟨under.size, under.known⟩
      simp only
      rcases popped.visit consistent entries index with ⟨next, visited, kept⟩ | ⟨rejection, refused, lost⟩
      · rw [visited]
        exact ih kept
      · rw [refused]
        exact .inr ⟨rejection, rfl, .inl lost⟩

end Setting

namespace Verifier
variable {verifier : Verifier} {method : Method}

/-- With consistent frames the analysis goes through, unless it meets its limit or a rule that is
lost in joins. -/
theorem analyze_of_consistent {setting : Setting} {frames : Array (Option Frame)}
    (code : method.access.hasNoCode = false) (prepared : verifier.setting method = .ok setting)
    (consistent : setting.Consistent frames) :
    (∃ found, verifier.analyze method = .ok found) ∨
      ∃ rejection, verifier.analyze method = .error rejection ∧
        (setting.Loses rejection ∨ rejection.violation = .visitLimit verifier.maxVisits) := by
  obtain ⟨type, _, built, _, _, nonempty⟩ := setting_ok prepared
  have valid := Setting.valid_start consistent.covered nonempty
  have under : setting.Under frames
      ((⟨Array.replicate setting.flow.size none, []⟩ : Progress).update 0 setting.initial) :=
    ⟨valid.size, valid.known⟩
  rw [analyze_eq verifier method code, prepared]
  rcases under.settle verifier.maxVisits verifier.maxVisits consistent
    (Flow.ofMethod_ok built).2 with ⟨settled, done⟩ | ⟨rejection, refused, reason⟩
  · left
    refine ⟨settled.frames, ?_⟩
    simp only [bind, Except.bind] at done ⊢
    rw [done]
    rfl
  · right
    refine ⟨rejection, ?_, reason⟩
    simp only [bind, Except.bind] at refused ⊢
    rw [refused]

end Verifier
end Bytecode.Verify
