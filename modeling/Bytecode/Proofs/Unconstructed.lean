import Bytecode.Proofs.FixedPoint
import Bytecode.Proofs.TagRules

/-! Objects whose constructor has not run. Only calls refuse to be made on them; every other
instruction that takes a reference takes these too. Whether a method hands one of them on is
decided by the runs along its paths, since no join makes such an object look constructed. -/

namespace Bytecode.Verify
open List

namespace Value

/-- What a run keeps of a value. Constructed objects are all alike. -/
def blur : Value → Value
  | null | reference _ => reference objectName
  | value => value

@[simp] theorem blur_blur (value : Value) : value.blur.blur = value.blur := by
  cases value <;> rfl

@[simp] theorem blur_comp_blur : blur ∘ blur = blur := funext blur_blur

@[simp] theorem blur_size (value : Value) : value.blur.size = value.size := by
  cases value <;> rfl

@[simp] theorem blur_isWide (value : Value) : value.blur.isWide = value.isWide := by
  rw [isWide, isWide, blur_size]

@[simp] theorem blur_isReference (value : Value) : value.blur.isReference = value.isReference := by
  cases value <;> rfl

@[simp] theorem blur_isUninitialized (value : Value) :
    value.blur.isUninitialized = value.isUninitialized := by
  cases value <;> rfl

theorem blur_of_uninitialized {value : Value} (raw : value.isUninitialized = true) :
    value.blur = value := by
  cases value with
  | uninitializedThis | uninitialized => rfl
  | _ => cases raw

theorem blur_of_primitive {value : Value} (primitive : value.isReference = false) :
    value.blur = value := by
  cases value with
  | null | reference => cases primitive
  | _ => rfl

theorem blur_ne_empty {value : Value} (usable : value ≠ empty) : value.blur ≠ empty := by
  cases value with
  | empty => exact absurd rfl usable
  | _ => exact fun same => by cases same

theorem Below.blur_eq {lower upper : Value} (below : lower.Below upper) : lower.blur = upper.blur := by
  rcases below_iff.mp below with rfl | ⟨rfl, _, rfl⟩ | ⟨⟨_, rfl⟩, rfl⟩ <;> rfl

/-- No blurred value but the unconstructed one itself is replaced when its constructor runs. -/
theorem blur_eq_uninitialized {value receiver : Value} (raw : receiver.isUninitialized = true) :
    value.blur = receiver ↔ value = receiver := by
  constructor
  · rintro rfl
    rw [blur_isUninitialized] at raw
    exact (blur_of_uninitialized raw).symm
  · rintro rfl
    exact blur_of_uninitialized raw

/-- A local of a run, and what the verifier has of it. -/
def Shows (own known : Value) : Prop := known = empty ∨ own = known.blur

theorem Shows.above {own lower upper : Value} (shows : own.Shows lower)
    (below : lower.BelowLocal upper) : own.Shows upper := by
  rcases below with unusable | below
  · exact .inl unusable
  · rcases shows with rfl | same
    · exact .inl below.of_empty
    · exact .inr (same.trans below.blur_eq)

theorem Shows.isWide {own known : Value} (shows : own.Shows known) :
    known = empty ∨ own.isWide = known.isWide := by
  rcases shows with unusable | rfl
  · exact .inl unusable
  · exact .inr known.blur_isWide

end Value

@[simp] theorem stackHeight_blur (values : List Value) :
    stackHeight (values.map Value.blur) = stackHeight values := by
  induction values with
  | nil => rfl
  | cons value rest ih => simp [stackHeight, ih]

def Frame.blur (frame : Frame) : Frame := ⟨frame.locals.map Value.blur, frame.stack.map Value.blur⟩

/-- The frame of a run, and the one that the verifier has at the same place. -/
structure Tracks (own known : Frame) : Prop where
  locals : Forall₂ Value.Shows own.locals known.locals
  stack : own.stack = known.stack.map Value.blur

theorem Tracks.blurred (frame : Frame) : Tracks frame.blur frame :=
  ⟨List.forall₂_map_left_iff.mpr (List.forall₂_same.mpr fun _ _ => .inr rfl), rfl⟩

theorem Tracks.above {own lower upper : Frame} (tracks : Tracks own lower)
    (below : lower.Below upper) : Tracks own upper := by
  refine ⟨forall₂_comp (fun _ _ _ shows => shows.above) tracks.locals below.locals, ?_⟩
  rw [tracks.stack]
  apply List.forall₂_eq_eq_eq ▸ List.rel_map ?_ below.stack
  exact fun _ _ ordered => ordered.blur_eq

theorem shows_blurred {locals known : List Value} (shown : Forall₂ Value.Shows locals known) :
    Forall₂ Value.Shows (locals.map Value.blur) known := by
  refine List.forall₂_map_left_iff.mpr (shown.imp ?_)
  intro own known shows
  rcases shows with unusable | rfl
  · exact .inl unusable
  · exact .inr known.blur_blur

theorem swap_blurred {receiver : Value} (raw : receiver.isUninitialized = true) (value object : Value) :
    (if value.blur = receiver then object else value.blur).blur =
      (if value = receiver then object else value).blur := by
  by_cases same : value = receiver
  · simp [same, Value.blur_of_uninitialized raw]
  · have apart : value.blur ≠ receiver := fun blurred => same ((Value.blur_eq_uninitialized raw).mp blurred)
    simp [same, apart]

theorem Tracks.replace {own known : Frame} (tracks : Tracks own known) {receiver : Value}
    (raw : receiver.isUninitialized = true) (object : Value) :
    Tracks (own.replace receiver object).blur (known.replace receiver object) := by
  constructor
  · refine List.forall₂_map_left_iff.mpr (List.forall₂_map_left_iff.mpr ?_)
    refine List.forall₂_map_right_iff.mpr (tracks.locals.imp ?_)
    intro value known shows
    rcases shows with rfl | rfl
    · left
      have apart : Value.empty ≠ receiver := by
        rintro rfl
        cases raw
      exact if_neg apart
    · exact .inr (swap_blurred raw known object)
  · simp only [Frame.replace, Frame.blur, tracks.stack, List.map_map]
    exact List.map_congr_left fun value _ => swap_blurred raw value object

theorem Demand.Meets.blur {demand : Demand} {value : Value} {tag : Tag}
    (known : demand.tag? = some tag) (meets : demand.Meets value) : demand.Meets value.blur := by
  cases demand with
  | reference => exact (Value.blur_isReference value).trans meets
  | exactly wanted =>
    obtain rfl : value = wanted := eq_of_beq meets
    have primitive : value.isReference = false := by
      by_contra object
      simp [Demand.tag?, object] at known
    rw [Value.blur_of_primitive primitive]
    exact meets

theorem meets_blurred {demands : List Demand} {tags : List Tag} {popped : List Value}
    (known : demands.mapM Demand.tag? = some tags) (meets : Forall₂ Demand.Meets demands popped) :
    Forall₂ Demand.Meets demands (popped.map Value.blur) := by
  refine List.forall₂_map_right_iff.mpr ?_
  have listed : Forall₂ (fun demand _ => demand ∈ demands) demands popped :=
    List.forall₂_iff_zip.mpr ⟨meets.length_eq, fun pair => List.of_mem_zip pair |>.1⟩
  refine Forall₂.mp ?_ listed meets
  intro demand value among met
  obtain ⟨tag, _, wanted⟩ := Demand.tag?_of_mem known among
  exact met.blur wanted

theorem shows_held {locals known : List Value} (shown : Forall₂ Value.Shows locals known) {slot : Nat}
    {value : Value} (held : known[slot]? = some value) (usable : value ≠ .empty) :
    locals[slot]? = some value.blur := by
  obtain ⟨own, found, shows⟩ := forall₂_held (Forall₂.flip (R := flip Value.Shows) shown) held
  rcases shows with unusable | rfl
  · exact absurd unusable usable
  · exact found

theorem Value.Serves.blur {value kind : Value} {tag : Tag} (known : (Demand.ofKind kind).tag? = some tag)
    (serves : value.Serves kind) : value.blur.Serves kind :=
  Demand.meets_ofKind.mp ((Demand.meets_ofKind.mpr serves).blur known)

theorem arrayElement_blurred {array value : Value} (found : Step.arrayElement array = .ok value) :
    Step.arrayElement array.blur = .ok value.blur := by
  cases array with
  | null =>
    cases found
    rfl
  | reference name =>
    obtain ⟨text, rfl⟩ := arrayElement_reference found
    rfl
  | _ => cases found

namespace Action
variable {around : Surroundings} {action : Action} {before after own : Frame}

/-- A run does what the verifier does, unless it returns. -/
theorem Performs.tracked (performs : Performs around action before after)
    (going : ∀ returned, action ≠ .leave returned) {rule : Rule} (known : action.rule? = some rule)
    (tracks : Tracks own before) : ∃ next, Performs around action own next ∧ Tracks next.blur after := by
  obtain ⟨held, values⟩ := own
  obtain ⟨shown, rfl⟩ := tracks
  have blurred := shows_blurred shown
  cases performs with
  | @effect fixed popped rest locals meets fits =>
    simp only [rule?, Option.bind_eq_bind, Option.bind_eq_some_iff] at known
    obtain ⟨operands, kinds, _⟩ := known
    refine ⟨⟨held, fixed.result.toList ++ rest.map Value.blur⟩, ?_, blurred, ?_⟩
    · simp only [List.map_append]
      refine .effect (meets_blurred kinds meets) ?_
      simpa [Surroundings.Fits] using fits
    · simp [Frame.blur]
  | @shuffle opcode form taken rest locals listed widths fits =>
    refine ⟨⟨held, form.arrange (taken.map Value.blur) ++ rest.map Value.blur⟩, ?_, blurred, ?_⟩
    · simp only [List.map_append]
      refine .shuffle listed ?_ ?_
      · simpa [Function.comp_def] using widths
      · rw [form.arrange_map, ← List.map_append, stackHeight_blur]
        exact fits
    · simp [Frame.blur, form.arrange_map, Function.comp_def]
  | @element array value rest locals object found fits =>
    refine ⟨⟨held, value.blur :: rest.map Value.blur⟩, ?_, blurred, ?_⟩
    · refine .element (by simpa using object) (arrayElement_blurred found) ?_
      simpa [Surroundings.Fits, stackHeight] using fits
    · simp [Frame.blur]
  | @load slot kind value stack locals here usable serves fits =>
    obtain ⟨tag, kinds, _⟩ := Option.map_eq_some_iff.mp known
    refine ⟨⟨held, value.blur :: stack.map Value.blur⟩, ?_, blurred, ?_⟩
    · refine .load (shows_held shown here usable) (Value.blur_ne_empty usable) (serves.blur kinds) ?_
      simpa [Surroundings.Fits, stackHeight] using fits
    · simp [Frame.blur]
  | @consult slot kind value stack locals here usable serves =>
    obtain ⟨tag, kinds, _⟩ := Option.map_eq_some_iff.mp known
    refine ⟨⟨held, stack.map Value.blur⟩, ?_, blurred, ?_⟩
    · exact .consult (shows_held shown here usable) (Value.blur_ne_empty usable) (serves.blur kinds)
    · simp [Frame.blur]
  | @store slot kinds value rest locals meets inside =>
    obtain ⟨tags, wanted, _⟩ := Option.map_eq_some_iff.mp known
    obtain ⟨kind, listed, met⟩ := meets
    obtain ⟨tag, _, tagged⟩ := Demand.tag?_of_mem wanted listed
    refine ⟨⟨held.mapIdx (overwrite slot value.blur), rest.map Value.blur⟩, ?_, ?_, ?_⟩
    · exact .store ⟨kind, listed, met.blur tagged⟩ (by simpa [shown.length_eq] using inside)
    · refine shows_blurred (overwrite_related (fun _ => .inl rfl) (.inr rfl) value.blur_isWide ?_ shown)
      exact fun _ _ shows => shows.isWide
    · simp [Frame.blur]
  | leave => exact absurd rfl (going _)
  | @receive arguments result popped receiver rest locals meets object initialized fits =>
    simp only [rule?, Option.bind_eq_bind, Option.bind_eq_some_iff] at known
    obtain ⟨operands, kinds, _⟩ := known
    refine ⟨⟨held, result.toList ++ rest.map Value.blur⟩, ?_, blurred, ?_⟩
    · simp only [List.map_append, List.map_cons]
      refine .receive (meets_blurred kinds meets) (by simpa using object) (by simpa using initialized) ?_
      simpa [Surroundings.Fits] using fits
    · simp [Frame.blur]
  | @construct arguments result popped receiver object rest locals middle meets made replaced fits =>
    simp only [rule?, Option.bind_eq_bind, Option.bind_eq_some_iff] at known
    obtain ⟨operands, kinds, _⟩ := known
    have raw := constructed?_uninitialized made
    subst replaced
    have left : Tracks ⟨held, rest.map Value.blur⟩ ⟨locals, rest⟩ := ⟨shown, rfl⟩
    have swapped := left.replace raw object
    let middle := (⟨held, rest.map Value.blur⟩ : Frame).replace receiver object
    have stacked : middle.stack.map Value.blur =
        ((⟨locals, rest⟩ : Frame).replace receiver object).stack.map Value.blur := swapped.stack
    refine ⟨⟨middle.locals, result.toList ++ middle.stack⟩, ?_, swapped.locals, ?_⟩
    · simp only [List.map_append, List.map_cons, Value.blur_of_uninitialized raw]
      refine .construct (meets_blurred kinds meets) made rfl ?_
      have height := congrArg stackHeight stacked
      rw [stackHeight_blur, stackHeight_blur] at height
      simpa [Surroundings.Fits, height] using fits
    · simp [Frame.blur, stacked]

end Action

/-- Nothing follows a return but a throw. -/
theorem successors_of_return {flow : Flow} {index : Nat} {opcode : Opcode} {returned : Option Demand}
    (returns : Effect.ofReturn? opcode = some returned) : flow.successors index (.simple opcode) = [] := by
  cases opcode <;> cases returns <;> rfl

/-- A run does what the verifier does wherever control goes on. -/
theorem transfer_tracked {flow : Flow} {around : Surroundings} {index source target : Nat}
    {instruction : Instruction} {before after own : Frame}
    (next : target ∈ flow.successors source instruction)
    (done : (transfer around index instruction).run before = .ok ((), after)) (tracks : Tracks own before) :
    ∃ last, (transfer around index instruction).run own = .ok ((), last) ∧ Tracks last.blur after := by
  obtain ⟨action, named, performs⟩ := (Action.transfer_follows index instruction _ _).mp done
  -- A return looks at the first local, which a run may know better than the verifier.
  have going : ∀ returned, action ≠ .leave returned := by
    rintro returned rfl
    obtain ⟨opcode, returns, rfl⟩ := Action.of?_comesFrom named
    rw [successors_of_return returns] at next
    cases next
  obtain ⟨rule, known, _⟩ := Action.of?_has named
  obtain ⟨last, ran, tracks⟩ := performs.tracked going known tracks
  exact ⟨last, (Action.transfer_follows index instruction own last).mpr ⟨action, named, ran⟩, tracks⟩

def arity (descriptor : String) : Nat :=
  (MethodType.parse descriptor).toOption.elim 0 (·.parameters.length)

/-- The operands, counted from the top, that leave the hands of the method: the arguments of a
call, and what is returned, thrown, stored or cast. -/
def handedOn : Instruction → Nat
  | .simple .areturn | .simple .athrow | .simple .aastore => 1
  | .type .checkCast _ => 1
  | .field .putField .. | .field .putStatic .. => 1
  | .method _ _ _ descriptor _ | .callSite _ descriptor .. => arity descriptor
  | _ => 0

/-- What an instruction calls a method on, unless it calls a constructor. -/
def calledOn? : Instruction → Frame → Option Value
  | .method opcode _ name descriptor _, frame =>
    if opcode = .invokeStatic ∨ opcode = .invokeSpecial ∧ name = Step.constructorName then none
    else frame.stack[arity descriptor]?
  | _, _ => none

/-- The instruction uses no object whose constructor has not run. -/
structure Disciplined (instruction : Instruction) (frame : Frame) : Prop where
  operands : ∀ value ∈ frame.stack.take (handedOn instruction), value.isUninitialized = false
  receiver : ∀ value ∈ calledOn? instruction frame, value.isUninitialized = false

/-- No method is called on an object before its constructor ran. -/
theorem transfer_receiver {around : Surroundings} {index : Nat} {instruction : Instruction}
    {before after : Frame} (done : (transfer around index instruction).run before = .ok ((), after)) :
    ∀ value ∈ calledOn? instruction before, value.isUninitialized = false := by
  intro value called
  obtain ⟨action, known, performs⟩ := (Action.transfer_follows index instruction _ _).mp done
  cases instruction with
  | method opcode owner name descriptor onInterface =>
    simp only [calledOn?, Option.mem_def] at called
    split at called
    · cases called
    next ordinary =>
      obtain ⟨type, parsed, rfl⟩ := Option.map_eq_some_iff.mp known
      rcases Action.ofMethod_cases opcode name type with ⟨static, _⟩ | ⟨special, named, _⟩ | ⟨_, _, found⟩
      · exact absurd (.inl static) ordinary
      · exact absurd (.inr ⟨special, named⟩) ordinary
      · rw [found] at performs
        cases performs with
        | receive meets object initialized =>
          have count := meets.length_eq
          simp only [List.length_map, List.length_reverse] at count
          simp only [arity, parsed, Option.elim_some, count, List.getElem?_append_right (Nat.le_refl _),
            Nat.sub_self, List.getElem?_cons_zero, Option.some.injEq] at called
          exact called ▸ initialized
  | _ => cases called

namespace Setting
variable {setting : Setting} {frames : Array (Option Frame)}

/-- What a run along moves, the latest of which comes first, arrives with. Nothing is merged
into its frame. -/
def carry (setting : Setting) : List Move → Except Violation Frame
  | [] => .ok setting.initial.blur
  | move :: earlier => do
    let own ← setting.carry earlier
    if move.thrown then return own.withStack (.reference objectName)
    match setting.flow.instructions[move.source]? with
    | none => throw .fallsOffEnd
    | some instruction =>
      let ((), after) ← (transfer setting.around move.source instruction).run own
      return after.blur

theorem Consistent.tracked (consistent : setting.Consistent frames) {moves : List Move} {index : Nat}
    (path : setting.flow.Path moves index) :
    ∃ frame own, Holds frames index frame ∧ setting.carry moves = .ok own ∧ Tracks own frame := by
  induction path with
  | start =>
    obtain ⟨frame, held, below⟩ := consistent.start
    exact ⟨frame, _, held, rfl, (Tracks.blurred setting.initial).above below⟩
  | @step moves move path allowed ih =>
    obtain ⟨before, own, held, carried, tracks⟩ := ih
    cases allowed with
    | @throws instruction source handler present ordinary listed covers =>
      obtain ⟨frame, kept, below⟩ := consistent.covers ⟨source, handler.entry, true⟩ before _ held
        (.throws present ordinary listed covers)
      have entered : Tracks (own.withStack (.reference objectName))
          (before.withStack (.reference handler.caught)) := ⟨tracks.locals, rfl⟩
      refine ⟨frame, _, kept, ?_, entered.above below⟩
      simp [carry, carried, bind, Except.bind, pure, Except.pure]
    | @goes instruction source target present next =>
      obtain ⟨after, done⟩ := consistent.accepts source instruction before present held
      obtain ⟨frame, kept, below⟩ := consistent.covers ⟨source, target, false⟩ before after held
        (.goes present done next)
      obtain ⟨last, followed, tracks⟩ := transfer_tracked next done tracks
      refine ⟨frame, last.blur, kept, ?_, tracks.above below⟩
      simp [carry, carried, present, followed, bind, Except.bind, pure, Except.pure]

end Setting

namespace Verifier
variable {verifier : Verifier} {method : Method} {frames : Array (Option Frame)}

/-- An instruction of an accepted method uses an object whose constructor has not run exactly
when some run to it hands such an object on. -/
theorem disciplined_iff (code : method.access.hasNoCode = false)
    (accepted : verifier.analyze method = .ok frames) :
    ∃ setting, verifier.setting method = .ok setting ∧
      (∀ moves index, setting.flow.Path moves index → ∃ own, setting.carry moves = .ok own) ∧
      ∀ index instruction frame, method.instructions[index]? = some instruction →
        Holds frames index frame →
        (Disciplined instruction frame ↔
          ∀ moves own, setting.flow.Path moves index → setting.carry moves = .ok own →
            ∀ value ∈ own.stack.take (handedOn instruction), value.isUninitialized = false) := by
  obtain ⟨setting, prepared, consistent, forced⟩ :=
    analyze_ok (fun setting _ => setting.forced_carries) code accepted
  obtain ⟨_, _, built, _⟩ := setting_ok prepared
  have instructions := (Flow.ofMethod_ok built).1
  refine ⟨setting, prepared, ?_, ?_⟩
  · intro moves index path
    obtain ⟨_, own, _, carried, _⟩ := consistent.tracked path
    exact ⟨own, carried⟩
  · intro index instruction frame present held
    have shown {moves : List Move} (path : setting.flow.Path moves index) :
        ∃ own, setting.carry moves = .ok own ∧ own.stack = frame.stack.map Value.blur := by
      obtain ⟨also, own, kept, carried, tracks⟩ := consistent.tracked path
      obtain rfl := kept.unique held
      exact ⟨own, carried, tracks.stack⟩
    constructor
    · intro disciplined moves own path carried value taken
      obtain ⟨also, ran, stack⟩ := shown path
      obtain rfl := Except.ok.inj (ran.symm.trans carried)
      rw [stack, ← List.map_take] at taken
      obtain ⟨known, among, rfl⟩ := List.mem_map.mp taken
      rw [Value.blur_isUninitialized]
      exact disciplined.operands known among
    · intro clean
      obtain ⟨moves, path⟩ := (forced index frame held).reached
      obtain ⟨own, carried, stack⟩ := shown path
      obtain ⟨after, done⟩ :=
        consistent.accepts index instruction frame (by rw [instructions]; exact present) held
      refine ⟨?_, transfer_receiver done⟩
      intro value taken
      rw [← Value.blur_isUninitialized]
      apply clean moves own path carried
      rw [stack, ← List.map_take]
      exact List.mem_map_of_mem taken

/-- A method without parameters that returns an object. -/
def factoryOf (instructions : Array Instruction) : Method where
  access := ⟨8⟩
  name := "create"
  descriptor := "()Ljava/lang/Object;"
  signature := none
  exceptions := []
  instructions
  ranges := []
  variableTable := none
  maxStack := 2
  maxLocals := 0

def factoryVerifier : Verifier := ⟨"Main", 2, 100⟩

/-- Returns an object after its constructor ran. -/
def careful : Method := factoryOf #[.type .new "A", .simple .dup,
  .method .invokeSpecial "A" Step.constructorName "()V" false, .simple .areturn]

def carefulFrames : Array (Option Frame) :=
  #[some ⟨[], []⟩, some ⟨[], [.uninitialized 0 "A"]⟩,
    some ⟨[], [.uninitialized 0 "A", .uninitialized 0 "A"]⟩, some ⟨[], [.reference "A"]⟩]

theorem disciplined_iff_careful :
    ∃ setting, factoryVerifier.setting careful = .ok setting ∧
      (∀ moves index, setting.flow.Path moves index → ∃ own, setting.carry moves = .ok own) ∧
      ∀ index instruction frame, careful.instructions[index]? = some instruction →
        Holds carefulFrames index frame →
        (Disciplined instruction frame ↔
          ∀ moves own, setting.flow.Path moves index → setting.carry moves = .ok own →
            ∀ value ∈ own.stack.take (handedOn instruction), value.isUninitialized = false) := by
  have accepted : factoryVerifier.analyze careful = .ok carefulFrames := by decide +kernel
  exact disciplined_iff (by decide) accepted

/-- Casts an object to its own class before its constructor ran, and returns it. -/
def hasty : Method := factoryOf #[.type .new "A", .type .checkCast "A", .simple .areturn]

def hastyFrames : Array (Option Frame) :=
  #[some ⟨[], []⟩, some ⟨[], [.uninitialized 0 "A"]⟩, some ⟨[], [.reference "A"]⟩]

theorem hasty_accepted_undisciplined :
    hasty.access.hasNoCode = false ∧ factoryVerifier.analyze hasty = .ok hastyFrames ∧
      ∃ index instruction frame, hasty.instructions[index]? = some instruction ∧
        Holds hastyFrames index frame ∧ ¬ Disciplined instruction frame := by
  refine ⟨by decide, by decide +kernel, 1, .type .checkCast "A", ⟨[], [.uninitialized 0 "A"]⟩, rfl, rfl, ?_⟩
  intro disciplined
  exact absurd (disciplined.operands _ List.mem_cons_self) (by decide)

end Verifier
end Bytecode.Verify
