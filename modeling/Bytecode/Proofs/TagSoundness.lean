import Bytecode.Proofs.FixedPoint
import Bytecode.Proofs.TagRules

/-! Frames of an accepted method describe what the machine of tags does on every path, so
that it never faults. Frames and states are related after each move. -/

namespace Bytecode.Verify
open List

/-- The machine holds a value of the tag. -/
def Value.Tagged (value : Value) (tag : Tag) : Prop := value.tag? = some tag

/-- A local that the verifier has given up may hold anything. -/
def Value.Describes (value : Value) (cell : Option Tag) : Prop := value ≠ empty → cell = value.tag?

structure Models (frame : Frame) (state : TagState) : Prop where
  locals : Forall₂ Value.Describes frame.locals state.locals
  stack : Forall₂ Value.Tagged frame.stack state.stack

theorem Value.BelowLocal.describes {lower upper : Value} (below : lower.BelowLocal upper)
    {cell : Option Tag} (described : lower.Describes cell) : upper.Describes cell := by
  intro usable
  rcases below with unusable | below
  · exact absurd unusable usable
  · have set : lower ≠ empty := by
      rintro rfl
      exact usable below.of_empty
    rw [described set, below.tag?_eq]

theorem Models.above {frame above : Frame} {state : TagState} (models : Models frame state)
    (below : frame.Below above) : Models above state := by
  have locals := (Forall₂.flip (R := flip Value.BelowLocal) below.locals)
  have stack := (Forall₂.flip (R := flip Value.Below) below.stack)
  refine ⟨forall₂_comp ?_ locals models.locals, forall₂_comp ?_ stack models.stack⟩
  · exact fun _ _ _ ordered described => ordered.describes described
  · exact fun _ _ _ ordered tagged => ordered.tag?_eq.symm.trans tagged

theorem Models.held {frame : Frame} {state : TagState} (models : Models frame state) {slot : Nat}
    {value : Value} (held : frame.locals[slot]? = some value) (usable : value ≠ .empty) :
    state.locals[slot]? = some value.tag? := by
  obtain ⟨cell, found, described⟩ := forall₂_held models.locals held
  rw [found, described usable]

theorem Models.tags {frame : Frame} {state : TagState} (models : Models frame state) :
    frame.stack.map Value.tag? = state.stack.map some := by
  apply List.forall₂_eq_eq_eq ▸ List.rel_map ?_ models.stack
  exact fun _ _ tagged => tagged

end Bytecode.Verify

namespace Bytecode.TagMachine
open Verify List

theorem height_eq {values : List Value} {tags : List Tag} (tagged : Forall₂ Value.Tagged values tags) :
    Tag.height tags = stackHeight values := by
  induction tagged with
  | nil => rfl
  | cons head _ ih =>
    rw [Tag.height] at ih
    simp [Tag.height, stackHeight, ih, Value.size_of_tag? head]

theorem popTags_ok {demands : List Demand} {operands : List Tag} {popped rest : List Value}
    {stack : List Tag} (known : demands.mapM Demand.tag? = some operands)
    (meets : Forall₂ Demand.Meets demands popped)
    (tagged : Forall₂ Value.Tagged (popped ++ rest) stack) :
    ∃ below, popTags operands stack = .ok below ∧ Forall₂ Value.Tagged rest below := by
  induction meets generalizing operands stack with
  | nil =>
    cases known
    exact ⟨stack, rfl, tagged⟩
  | @cons demand value demands popped first _ ih =>
    simp only [List.mapM_cons, Option.pure_def, Option.bind_eq_bind, Option.bind_eq_some_iff] at known
    obtain ⟨tag, wanted, tags, others, same⟩ := known
    cases same
    obtain ⟨found, below, head, tail, rfl⟩ := List.forall₂_cons_left_iff.mp tagged
    obtain rfl : found = tag := Option.some.inj (head.symm.trans (first.tag? wanted))
    obtain ⟨left, popped, kept⟩ := ih others tail
    exact ⟨left, by simpa [popTags] using popped, kept⟩

theorem pushTags_ok {machine : TagMachine} {results rest : List Value} {given below : List Tag}
    (pushed : Forall₂ Value.Tagged results given) (kept : Forall₂ Value.Tagged rest below)
    (fits : results = [] ∨ stackHeight (results ++ rest) ≤ machine.maxStack) :
    machine.pushTags given below = .ok (given ++ below) := by
  refine if_pos ?_
  rcases fits with rfl | fits
  · cases pushed
    exact .inl rfl
  · right
    rw [height_eq (List.rel_append pushed kept)]
    exact fits

theorem read_ok {locals : List Value} {cells : List (Option Tag)} {slot : Nat} {value : Value}
    {tag : Tag} (described : Forall₂ Value.Describes locals cells)
    (held : locals[slot]? = some value) (usable : value ≠ .empty) (tagged : value.Tagged tag) :
    read cells slot tag = .ok () := by
  obtain ⟨cell, found, describes⟩ := forall₂_held described held
  have set : cell = some tag := (describes usable).trans tagged
  simp [read, found, set]

theorem writeCell_describes {slot index : Nat} {value old : Value} {tag : Tag} {cell : Option Tag}
    (tagged : value.Tagged tag) (described : old.Describes cell) :
    (overwrite slot value index old).Describes (writeCell slot tag index cell) := by
  intro usable
  unfold overwrite at usable ⊢
  unfold writeCell
  rw [Value.isWide_of_tag? tagged] at usable ⊢
  by_cases here : index = slot
  · rw [if_pos here, if_pos here]
    exact tagged.symm
  rw [if_neg here] at usable ⊢
  rw [if_neg here]
  by_cases next : index = slot + 1 ∧ tag.isWide = true
  · rw [if_pos next] at usable
    exact absurd rfl usable
  rw [if_neg next] at usable ⊢
  rw [if_neg next]
  by_cases before : index + 1 = slot ∧ old.isWide = true
  · rw [if_pos before] at usable
    exact absurd rfl usable
  rw [if_neg before] at usable ⊢
  have same := described usable
  have narrow : ¬ (index + 1 = slot ∧ cell.any Tag.isWide = true) := by
    rintro ⟨place, wide⟩
    cases cell with
    | none => cases wide
    | some held => exact before ⟨place, (Value.isWide_of_tag? same.symm).trans wide⟩
  rw [if_neg narrow]
  exact same

theorem write_ok {locals : List Value} {cells : List (Option Tag)} {slot : Nat} {value : Value}
    {tag : Tag} (described : Forall₂ Value.Describes locals cells) (tagged : value.Tagged tag)
    (inside : slot + value.size ≤ locals.length) :
    ∃ written, write cells slot tag = .ok written ∧
      Forall₂ Value.Describes (locals.mapIdx (overwrite slot value)) written := by
  refine ⟨_, if_pos ?_, forall₂_mapIdx ?_ described⟩
  · rw [← described.length_eq, ← Value.size_of_tag? tagged]
    exact inside
  · exact fun _ _ _ old => writeCell_describes tagged old

variable {machine : TagMachine} {around : Surroundings} {state : TagState}

theorem tagged_result {result : Option Value} {results : List Tag}
    (known : result.toList.mapM Value.tag? = some results) :
    Forall₂ Value.Tagged result.toList results := by
  cases result with
  | none =>
    cases known
    exact .nil
  | some value =>
    simp only [Option.toList_some, List.mapM_cons, List.mapM_nil, Option.pure_def,
      Option.bind_eq_bind, Option.bind_some, Option.bind_eq_some_iff] at known
    obtain ⟨tag, tagged, same⟩ := known
    cases same
    exact .cons tagged .nil

/-- Operands come off, something happens to what is left, and the result goes on. -/
theorem exchange_ok {demands : List Demand} {operands results : List Tag} {popped rest : List Value}
    {locals : List Value} {result : Option Value} {middle : Frame}
    (known : demands.mapM Demand.tag? = some operands) (meets : Forall₂ Demand.Meets demands popped)
    (gives : result.toList.mapM Value.tag? = some results)
    (models : Models ⟨locals, popped ++ rest⟩ state)
    (changes : ∀ below, Models ⟨locals, rest⟩ ⟨state.locals, below⟩ → Models middle ⟨state.locals, below⟩)
    (fits : around.Fits result middle.stack) (limit : machine.maxStack = around.maxStack) :
    ∃ next, machine.apply (.exchange ⟨operands, results⟩) state = .ok next ∧
      Models ⟨middle.locals, result.toList ++ middle.stack⟩ next := by
  obtain ⟨below, popped, kept⟩ := popTags_ok known meets models.stack
  have left := changes below ⟨models.locals, kept⟩
  have pushed := tagged_result gives
  have room : result.toList = [] ∨ stackHeight (result.toList ++ middle.stack) ≤ machine.maxStack := by
    rw [limit]
    rcases fits with rfl | fits
    · exact .inl rfl
    · exact .inr fits
  refine ⟨⟨state.locals, results ++ below⟩, ?_, left.locals, List.rel_append pushed left.stack⟩
  simp [apply, popped, pushTags_ok pushed left.stack room, bind, Except.bind, pure, Except.pure]

/-- An exchange that takes a receiver below the arguments. -/
theorem call_ok {arguments : List Demand} {operands results : List Tag} {popped rest : List Value}
    {locals : List Value} {receiver : Value} {result : Option Value} {middle : Frame}
    (known : arguments.mapM Demand.tag? = some operands)
    (meets : Forall₂ Demand.Meets arguments popped) (object : receiver.isReference = true)
    (gives : result.toList.mapM Value.tag? = some results)
    (models : Models ⟨locals, popped ++ receiver :: rest⟩ state)
    (changes : ∀ below, Models ⟨locals, rest⟩ ⟨state.locals, below⟩ → Models middle ⟨state.locals, below⟩)
    (fits : around.Fits result middle.stack) (limit : machine.maxStack = around.maxStack) :
    ∃ next, machine.apply (.exchange ⟨operands ++ [.reference], results⟩) state = .ok next ∧
      Models ⟨middle.locals, result.toList ++ middle.stack⟩ next := by
  have all : (arguments ++ [Demand.reference]).mapM Demand.tag? = some (operands ++ [.reference]) := by
    simp [List.mapM_append, known]
  have every : Forall₂ Demand.Meets (arguments ++ [Demand.reference]) (popped ++ [receiver]) :=
    List.rel_append meets (.cons object .nil)
  have stack : popped ++ receiver :: rest = popped ++ [receiver] ++ rest := by simp
  exact exchange_ok all every gives (stack ▸ models) changes fits limit

theorem shuffle_ok {opcode : Opcode} {form : StackForm} {taken rest locals : List Value}
    (known : form ∈ StackForm.ofOpcode opcode) (widths : taken.map Value.isWide = form.taken)
    (fits : form.given = [] ∨ stackHeight (form.arrange taken ++ rest) ≤ machine.maxStack)
    (models : Models ⟨locals, taken ++ rest⟩ state) :
    ∃ next, machine.apply (.shuffle opcode) state = .ok next ∧
      Models ⟨locals, form.arrange taken ++ rest⟩ next := by
  obtain ⟨cells, stack⟩ := state
  have tagged : Forall₂ Value.Tagged (taken ++ rest) stack := models.stack
  have count : taken.length = form.taken.length := by simpa using congrArg List.length widths
  have upper : Forall₂ Value.Tagged taken (stack.take form.taken.length) := by
    simpa [← count] using List.forall₂_take form.taken.length tagged
  have lower : Forall₂ Value.Tagged rest (stack.drop form.taken.length) := by
    simpa [← count] using List.forall₂_drop form.taken.length tagged
  have wide : stack.map Tag.isWide = (taken ++ rest).map Value.isWide :=
    (List.forall₂_eq_eq_eq ▸ List.rel_map (fun _ _ head => Value.isWide_of_tag? head) tagged).symm
  have fitting : form.taken <+: stack.map Tag.isWide := by
    rw [wide, List.map_append, widths]
    exact List.prefix_append ..
  have chosen : (StackForm.ofOpcode opcode).find? (fun form =>
      (stack.take form.taken.length).map Tag.isWide = form.taken) = some form := by
    simpa only [List.map_take] using StackForm.find_eq known fitting
  have given := StackForm.arrange_forall₂ form upper
  have room : form.arrange taken = [] ∨
      stackHeight (form.arrange taken ++ rest) ≤ machine.maxStack := by
    rcases fits with nothing | fits
    · left
      simp [StackForm.arrange, nothing]
    · exact .inr fits
  refine ⟨⟨cells, form.arrange (stack.take form.taken.length) ++ stack.drop form.taken.length⟩, ?_,
    models.locals, List.rel_append given lower⟩
  simp only [apply, chosen, pushTags_ok given lower room, bind, Except.bind, pure, Except.pure]

theorem models_replace {frame : Frame} {receiver object : Value}
    (made : around.constructed? receiver = some object) (models : Models frame state) :
    Models (frame.replace receiver object) state := by
  have tags : receiver.tag? = some .reference ∧ object.tag? = some .reference := by
    cases receiver with
    | uninitializedThis | uninitialized =>
      cases made
      exact ⟨rfl, rfl⟩
    | _ => cases made
  have swap (value : Value) : (if value = receiver then object else value).tag? = value.tag? := by
    by_cases same : value = receiver
    · rw [if_pos same, same, tags.1, tags.2]
    · rw [if_neg same]
  constructor
  · refine List.forall₂_map_left_iff.mpr (models.locals.imp ?_)
    intro value cell described usable
    rw [swap]
    apply described
    rintro rfl
    have apart : Value.empty ≠ receiver := by
      rintro rfl
      cases tags.1
    exact usable (if_neg apart)
  · refine List.forall₂_map_left_iff.mpr (models.stack.imp ?_)
    intro value tag tagged
    exact (swap value).trans tagged

theorem element_tag {array value : Value} (found : Step.arrayElement array = .ok value) :
    value.tag? = some .reference := by
  cases array with
  | null =>
    cases found
    rfl
  | reference name =>
    obtain ⟨text, rfl⟩ := arrayElement_reference found
    rfl
  | _ => cases found

/-- Where the rule of an action applies, the machine does not fault. -/
theorem apply_ok {action : Action} {rule : Rule} {before after : Frame}
    (performs : Action.Performs around action before after) (known : action.rule? = some rule)
    (models : Models before state) (limit : machine.maxStack = around.maxStack)
    (returned : machine.returned = around.result.map Tag.ofType) :
    ∃ next, machine.apply rule state = .ok next ∧ Models after next := by
  cases performs with
  | effect meets fits =>
    simp only [Action.rule?, Option.bind_eq_bind, Option.bind_eq_some_iff] at known
    obtain ⟨operands, takes, results, gives, same⟩ := known
    cases same
    exact exchange_ok takes meets gives models (fun _ left => left) fits limit
  | shuffle form widths fits =>
    cases known
    exact shuffle_ok form widths (limit ▸ fits) models
  | @element array value rest locals object found fits =>
    cases known
    have meets : Forall₂ Demand.Meets [Effect.int, .reference] [.int, array] :=
      .cons rfl (.cons object .nil)
    have takes : [Effect.int, .reference].mapM Demand.tag? = some [.int, .reference] := rfl
    have gives : (some value).toList.mapM Value.tag? = some [.reference] := by
      simp [element_tag found]
    exact exchange_ok takes meets gives models (fun _ left => left) fits limit
  | @load slot kind value stack locals held usable serves fits =>
    obtain ⟨tag, kind, rfl⟩ := Option.map_eq_some_iff.mp known
    have tagged : value.Tagged tag := (Demand.meets_ofKind.mpr serves).tag? kind
    have pushed : Forall₂ Value.Tagged [value] [tag] := .cons tagged .nil
    have room : [value] = [] ∨ stackHeight ([value] ++ stack) ≤ machine.maxStack := by
      rw [limit]
      exact .inr (fits.resolve_left (by simp))
    refine ⟨⟨state.locals, tag :: state.stack⟩, ?_, models.locals, .cons tagged models.stack⟩
    simp [apply, read_ok models.locals held usable tagged, pushTags_ok pushed models.stack room,
      bind, Except.bind, pure, Except.pure]
  | consult held usable serves =>
    obtain ⟨tag, kind, rfl⟩ := Option.map_eq_some_iff.mp known
    have tagged := (Demand.meets_ofKind.mpr serves).tag? kind
    refine ⟨state, ?_, models⟩
    simp [apply, read_ok models.locals held usable tagged, bind, Except.bind, pure, Except.pure]
  | @store slot kinds value rest locals meets inside =>
    obtain ⟨tags, wanted, rfl⟩ := Option.map_eq_some_iff.mp known
    obtain ⟨cells, stack⟩ := state
    obtain ⟨tag, below, tagged, kept, rfl⟩ := List.forall₂_cons_left_iff.mp models.stack
    obtain ⟨written, wrote, described⟩ := write_ok models.locals tagged inside
    have listed : tag ∈ tags := by
      obtain ⟨kind, known, meets⟩ := meets
      obtain ⟨other, among, kinded⟩ := Demand.tag?_of_mem wanted known
      obtain rfl := Option.some.inj (tagged.symm.trans (meets.tag? kinded))
      exact among
    refine ⟨⟨written, below⟩, ?_, described, kept⟩
    simp [apply, listed, wrote, bind, Except.bind, pure, Except.pure]
  | @leave _ popped rest locals declared meets =>
    subst declared
    have takes : (around.result.map Demand.ofType).toList.mapM Demand.tag? = some machine.returned.toList := by
      rw [returned]
      cases around.result with
      | none => rfl
      | some type => simp [Demand.tag?_ofType]
    obtain ⟨below, popped, kept⟩ := popTags_ok takes meets models.stack
    have rule : rule = .leave machine.returned := by
      rw [returned]
      cases result : around.result with
      | none => 
        rw [result] at known
        cases known
        rfl
      | some type =>
        rw [result] at known
        simp [Action.rule?, Demand.tag?_ofType] at known
        exact known.symm
    subst rule
    refine ⟨⟨state.locals, below⟩, ?_, models.locals, kept⟩
    simp [apply, popped, bind, Except.bind, pure, Except.pure]
  | receive meets object _ fits =>
    simp only [Action.rule?, Option.bind_eq_bind, Option.bind_eq_some_iff] at known
    obtain ⟨operands, takes, results, gives, same⟩ := known
    cases same
    exact call_ok takes meets object gives models (fun _ left => left) fits limit
  | @construct _ _ _ receiver _ _ _ _ meets made replaced fits =>
    simp only [Action.rule?, Option.bind_eq_bind, Option.bind_eq_some_iff] at known
    obtain ⟨operands, takes, results, gives, same⟩ := known
    cases same
    have object : receiver.isReference = true := by
      cases receiver <;> first | rfl | cases made
    subst replaced
    exact call_ok takes meets object gives models (fun _ left => models_replace made left) fits limit

theorem step_ok {index : Nat} {instruction : Instruction} {before after : Frame}
    (present : machine.instructions[index]? = some instruction)
    (done : (transfer around index instruction).run before = .ok ((), after))
    (models : Models before state) (limit : machine.maxStack = around.maxStack)
    (returned : machine.returned = around.result.map Tag.ofType) :
    ∃ next, machine.step index state = .ok next ∧ Models after next := by
  obtain ⟨action, known, performs⟩ := (Action.transfer_follows index instruction _ _).mp done
  obtain ⟨rule, found, same⟩ := Action.of?_has known
  obtain ⟨next, applied, models⟩ := apply_ok performs found models limit returned
  refine ⟨next, ?_, models⟩
  simpa only [step, present, same] using applied

/-- The state after moves, the latest of which comes first. A handler finds the locals as they
were before the instruction that throws, and the thrown object alone on the stack. -/
def follow (machine : TagMachine) : List Move → Except Fault TagState
  | [] => .ok machine.entry
  | move :: earlier => do
    let state ← machine.follow earlier
    if move.thrown then return { state with stack := [.reference] }
    else machine.step move.source state

private theorem replicate_describes (count : Nat) :
    Forall₂ Value.Describes (List.replicate count .empty) (List.replicate count none) := by
  induction count with
  | zero => exact .nil
  | succ count ih => exact .cons (fun usable => absurd rfl usable) ih

theorem placed_describes {count slot : Nat} {values locals : List Value} {tags : List Tag}
    (tagged : Forall₂ Value.Tagged values tags)
    (placed : placeArguments count slot values = .ok locals) :
    Forall₂ Value.Describes locals
      (tags.flatMap TagState.cells ++
        List.replicate (count - slot - (tags.flatMap TagState.cells).length) none) := by
  induction tagged generalizing slot locals with
  | nil =>
    cases placed
    simpa using replicate_describes (count - slot)
  | @cons value tag values tags head _ ih =>
    rw [placeArguments] at placed
    split at placed
    next inside =>
      obtain ⟨after, rest, rfl⟩ := map_ok.mp placed
      have width : value.size = tag.slots := Value.size_of_tag? head
      have one : 1 ≤ tag.slots := by cases tag <;> decide
      have left : count - slot - ((tag :: tags).flatMap TagState.cells).length =
          count - (slot + value.size) - (tags.flatMap TagState.cells).length := by
        simp [TagState.cells]
        omega
      rw [left, List.flatMap_cons, List.append_assoc, TagState.cells, width, List.cons_append]
      exact .cons (fun _ => head.symm) (List.rel_append (replicate_describes _) (width ▸ ih rest))
    next => cases placed

theorem entry_ok {verifier : Verifier} {method : Method} {type : MethodType} {initial : Frame}
    (built : verifier.initialFrame method type = .ok initial) (maxStack : Nat) :
    Models initial (method.tagMachine type maxStack).entry := by
  have parameters : Forall₂ Value.Tagged (type.parameters.map Value.ofType)
      (type.parameters.map Tag.ofType) := by
    refine List.forall₂_map_left_iff.mpr (List.forall₂_map_right_iff.mpr ?_)
    exact List.forall₂_same.mpr fun type _ => Value.tag?_ofType type
  have receivers : Forall₂ Value.Tagged
      (if method.access.isStatic then []
        else if method.name == Step.constructorName then [.uninitializedThis verifier.declaringType]
        else [.reference verifier.declaringType])
      (if method.access.isStatic then [] else [Tag.reference]) := by
    split
    · exact .nil
    · split <;> exact .cons rfl .nil
  obtain ⟨locals, placed, same⟩ := except_bind_ok.mp built
  cases same
  exact ⟨placed_describes (List.rel_append receivers parameters) placed, .nil⟩

theorem follow_ok {setting : Setting} {frames : Array (Option Frame)}
    (consistent : setting.Consistent frames) (models : Models setting.initial machine.entry)
    (code : machine.instructions = setting.flow.instructions)
    (limit : machine.maxStack = setting.around.maxStack)
    (returned : machine.returned = setting.around.result.map Tag.ofType)
    {moves : List Move} {index : Nat} (path : setting.flow.Path moves index) :
    ∃ frame state, Holds frames index frame ∧ machine.follow moves = .ok state ∧
      Models frame state := by
  induction path with
  | start =>
    obtain ⟨frame, held, below⟩ := consistent.start
    exact ⟨frame, machine.entry, held, rfl, models.above below⟩
  | @step moves move _ allowed ih =>
    obtain ⟨before, state, held, followed, models⟩ := ih
    cases allowed with
    | @goes instruction source target present next =>
      obtain ⟨after, done⟩ := consistent.accepts _ _ before present held
      obtain ⟨last, stepped, models⟩ := step_ok (code ▸ present) done models limit returned
      obtain ⟨frame, kept, below⟩ := consistent.covers ⟨source, target, false⟩ before after held
        (.goes present done next)
      refine ⟨frame, last, kept, ?_, models.above below⟩
      simpa [follow, followed, bind, Except.bind] using stepped
    | @throws instruction source handler present ordinary listed covers =>
      obtain ⟨frame, kept, below⟩ := consistent.covers ⟨source, handler.entry, true⟩ before _ held
        (.throws present ordinary listed covers)
      have entered : Models (before.withStack (.reference handler.caught))
          { state with stack := [.reference] } := ⟨models.locals, .cons rfl .nil⟩
      refine ⟨frame, { state with stack := [.reference] }, kept, ?_, entered.above below⟩
      simp [follow, followed, bind, Except.bind, pure, Except.pure]

end Bytecode.TagMachine

namespace Bytecode.Verify.Verifier
open TagMachine

/-- On every path through an accepted method with code the machine of tags goes on without a fault and
stays inside the code, and the frames describe its state. -/
theorem analyze_sound {verifier : Verifier} {method : Method} {frames : Array (Option Frame)}
    (code : method.access.hasNoCode = false) (accepted : verifier.analyze method = .ok frames) :
    ∃ setting type, verifier.setting method = .ok setting ∧
      MethodType.parse method.descriptor = .ok type ∧
      ∀ moves index, setting.flow.Path moves index → index < method.instructions.size ∧
        ∃ frame state next, Holds frames index frame ∧
          (method.tagMachine type verifier.maxStack.toNat).follow moves = .ok state ∧
          (method.tagMachine type verifier.maxStack.toNat).step index state = .ok next ∧
          frame.stack.map Value.tag? = state.stack.map some ∧
          ∀ (slot : Nat) (value : Value), frame.locals[slot]? = some value → value ≠ .empty →
            state.locals[slot]? = some value.tag? := by
  obtain ⟨setting, prepared, consistent, _⟩ :=
    analyze_ok (fun setting _ => setting.forced_carries) code accepted
  obtain ⟨type, parsed, built, around, placed, _⟩ := setting_ok prepared
  refine ⟨setting, type, prepared, parsed, ?_⟩
  intro moves index path
  have instructions := (Flow.ofMethod_ok built).1
  have limit : (method.tagMachine type verifier.maxStack.toNat).maxStack = setting.around.maxStack := by
    rw [← around]
    rfl
  have returned : (method.tagMachine type verifier.maxStack.toNat).returned =
      setting.around.result.map Tag.ofType := by
    rw [← around]
    rfl
  obtain ⟨frame, state, held, followed, models⟩ :=
    follow_ok consistent (entry_ok placed _) instructions.symm limit returned path
  have inside : index < method.instructions.size := by
    have := held.inside
    rwa [consistent.size, Flow.size, instructions] at this
  obtain ⟨instruction, present⟩ : ∃ instruction, method.instructions[index]? = some instruction :=
    ⟨_, Array.getElem?_eq_getElem inside⟩
  obtain ⟨after, done⟩ := consistent.accepts index instruction frame (by rwa [instructions]) held
  obtain ⟨next, stepped, _⟩ := step_ok present done models limit returned
  exact ⟨inside, frame, state, next, held, followed, stepped, models.tags,
    fun _ _ local_held usable => models.held local_held usable⟩

/-- Narrows its argument; whatever is thrown on the way, it returns zero. -/
def narrow : Method where
  access := ⟨8⟩
  name := "narrow"
  descriptor := "(J)I"
  signature := none
  exceptions := []
  instructions := #[.label ⟨0⟩, .variable .lload 0, .simple .l2i, .simple .ireturn, .label ⟨1⟩,
    .simple .pop, .simple .iconst0, .simple .ireturn]
  ranges := [⟨⟨0⟩, ⟨1⟩, ⟨1⟩, none⟩]
  variableTable := none
  maxStack := 2
  maxLocals := 2

theorem analyze_sound_narrow : ∃ frames setting type,
    (⟨"Main", 2, 100⟩ : Verifier).analyze narrow = .ok frames ∧
      (⟨"Main", 2, 100⟩ : Verifier).setting narrow = .ok setting ∧
      ∀ moves index, setting.flow.Path moves index → index < narrow.instructions.size ∧
        ∃ state, (narrow.tagMachine type 2).follow moves = .ok state := by
  have passes : ((⟨"Main", 2, 100⟩ : Verifier).analyze narrow).isOk = true := by decide +kernel
  cases accepted : (⟨"Main", 2, 100⟩ : Verifier).analyze narrow with
  | error rejection =>
    rw [accepted] at passes
    cases passes
  | ok frames =>
    obtain ⟨setting, type, prepared, _, sound⟩ := analyze_sound (by decide) accepted
    refine ⟨frames, setting, type, rfl, prepared, ?_⟩
    intro moves index path
    obtain ⟨inside, _, state, _, _, followed, _⟩ := sound moves index path
    exact ⟨inside, state, followed⟩

end Bytecode.Verify.Verifier
