import Bytecode.Proofs.RunStages

/-! Properties of single values that no rule of the verifier loses. It is enough to look at the values that
enter a frame: those it starts with, results of instructions, elements, constructed objects and thrown ones. -/

namespace Bytecode.Verify

/-- Every value on the stack and in a usable local has a property. -/
structure Frame.Each (holds : Value → Prop) (frame : Frame) : Prop where
  locals : ∀ value ∈ frame.locals, value ≠ .empty → holds value
  stack : ∀ value ∈ frame.stack, holds value

/-- Values with a property merge to one that has it, as an object has it that is known as nothing more. -/
theorem Value.merge_holds {holds : Value → Prop} (object : holds (.reference objectName)) {left right merged : Value}
    (joined : left.merge right = some merged) (one : holds left) (other : holds right) : holds merged := by
  rcases merge_cases joined with ⟨_, rfl⟩ | ⟨_, rfl⟩ | ⟨_, _, rfl⟩
  · exact other
  · exact one
  · exact object

namespace Frame
variable {holds : Value → Prop}

theorem Each.withStack {frame : Frame} (each : frame.Each holds) {value : Value} (held : holds value) :
    (frame.withStack value).Each holds := by
  refine ⟨each.locals, ?_⟩
  intro other listed
  obtain rfl := List.mem_singleton.mp listed
  exact held

theorem Each.replace {frame : Frame} (each : frame.Each holds) {replacement : Value} (held : holds replacement)
    (target : Value) : (frame.replace target replacement).Each holds := by
  constructor
  · intro value listed usable
    obtain ⟨old, among, rfl⟩ := List.mem_map.mp listed
    by_cases same : old = target
    · rw [if_pos same]
      exact held
    · rw [if_neg same] at usable ⊢
      exact each.locals old among usable
  · intro value listed
    obtain ⟨old, among, rfl⟩ := List.mem_map.mp listed
    by_cases same : old = target
    · rw [if_pos same]
      exact held
    · rw [if_neg same]
      exact each.stack old among

theorem Each.store {frame : Frame} (each : frame.Each holds) {value : Value} (held : holds value) (slot : Nat) :
    ∀ written ∈ frame.locals.mapIdx (overwrite slot value), written ≠ .empty → holds written := by
  intro written listed usable
  obtain ⟨index, inside, rfl⟩ := List.mem_mapIdx.mp listed
  have kept := each.locals frame.locals[index] (List.getElem_mem inside)
  unfold overwrite at usable ⊢
  split
  · exact held
  next here =>
    rw [if_neg here] at usable
    split at usable
    · exact absurd rfl usable
    next next =>
      rw [if_neg next]
      split at usable
      · exact absurd rfl usable
      next before =>
        rw [if_neg before]
        exact kept usable

end Frame

section
variable {holds : Value → Prop} (object : holds (.reference objectName))
include object

/-- A usable value is no join of unusable ones. -/
theorem Value.join_holds {first second : Value} (left : first ≠ .empty → holds first)
    (right : second ≠ .empty → holds second) (usable : first.join second ≠ .empty) : holds (first.join second) := by
  unfold Value.join at usable ⊢
  cases found : first.merge second with
  | none =>
    rw [found] at usable
    exact absurd rfl usable
  | some merged =>
    rw [found] at usable
    have both : first ≠ .empty ∧ second ≠ .empty := by
      constructor
      · rintro rfl
        exact usable (Value.merge_upper found).1.of_empty
      · rintro rfl
        exact usable (Value.merge_upper found).2.of_empty
    exact Value.merge_holds object found (left both.1) (right both.2)

theorem mergeLocals_each {lefts rights : List Value} (left : ∀ value ∈ lefts, value ≠ .empty → holds value)
    (right : ∀ value ∈ rights, value ≠ .empty → holds value) :
    ∀ value ∈ mergeLocals lefts rights, value ≠ .empty → holds value := by
  intro value listed usable
  rcases List.mem_append.mp listed with joined | alone
  · rw [← List.map_uncurry_zip_eq_zipWith] at joined
    obtain ⟨⟨first, second⟩, among, rfl⟩ := List.mem_map.mp joined
    obtain ⟨one, other⟩ := List.of_mem_zip among
    exact Value.join_holds object (left first one) (right second other) usable
  · exact left value (List.mem_of_mem_drop alone) usable

theorem mergeStack_each {lefts rights : List Value} (left : ∀ value ∈ lefts, holds value)
    (right : ∀ value ∈ rights, holds value) :
    (∀ merged, mergeStack lefts rights = .ok merged → ∀ value ∈ merged, holds value) ∧
      ∀ conflict, mergeStack lefts rights = .error conflict → ∀ value ∈ conflict.stack, holds value := by
  induction lefts generalizing rights with
  | nil =>
    constructor
    · rintro _ ⟨⟩
      exact left
    · rintro _ ⟨⟩
  | cons first lefts ih =>
    obtain ⟨top, below⟩ := List.forall_mem_cons.mp left
    cases rights with
    | nil =>
      constructor
      · rintro _ ⟨⟩
        exact left
      · rintro _ ⟨⟩
    | cons second rights =>
      obtain ⟨also, beside⟩ := List.forall_mem_cons.mp right
      obtain ⟨whole, part⟩ := ih below beside
      unfold mergeStack
      cases rest : mergeStack lefts rights with
      | error conflict =>
        constructor
        · rintro _ ⟨⟩
        · rintro _ ⟨⟩
          exact List.forall_mem_cons.mpr ⟨top, part conflict rest⟩
      | ok merged =>
        have kept := whole merged rest
        cases found : first.merge second with
        | none =>
          constructor
          · rintro _ ⟨⟩
          · rintro _ ⟨⟩
            exact List.forall_mem_cons.mpr ⟨top, kept⟩
        | some value =>
          constructor
          · rintro _ ⟨⟩
            exact List.forall_mem_cons.mpr ⟨Value.merge_holds object found top also, kept⟩
          · rintro _ ⟨⟩

theorem Frame.Each.merge {frame incoming merged : Frame} (each : frame.Each holds) (fresh : incoming.Each holds)
    (joined : frame.merge incoming = .ok merged) : merged.Each holds := by
  unfold Frame.merge at joined
  split at joined
  · cases joined
  · split at joined
    · cases joined
    next stack kept =>
      cases joined
      exact ⟨mergeLocals_each object each.locals fresh.locals,
        (mergeStack_each object each.stack fresh.stack).1 stack kept⟩

theorem Frame.Each.torn {frame incoming : Frame} {failure : MergeFailure} (each : frame.Each holds)
    (fresh : incoming.Each holds) (failed : frame.merge incoming = .error failure) :
    failure.remaining.Each holds := by
  unfold Frame.merge at failed
  split at failed
  · cases failed
    exact each
  · split at failed
    next conflict torn =>
      cases failed
      exact ⟨each.locals, (mergeStack_each object each.stack fresh.stack).2 conflict torn⟩
    · cases failed

end

namespace Action

/-- The value that an action pushes of its own. -/
def result? : Action → Option Value
  | effect fixed => fixed.result
  | receive _ result | construct _ result => result
  | _ => none

/-- What rules out a property of the values that an action brings in. -/
theorem Performs.each {around : Surroundings} {action : Action} {before after : Frame} {holds : Value → Prop}
    (performs : Performs around action before after) (results : ∀ value, action.result? = some value → holds value)
    (elements : ∀ array value, holds array → Step.arrayElement array = .ok value → holds value)
    (objects : ∀ receiver value, holds receiver → around.constructed? receiver = some value → holds value)
    (each : before.Each holds) : after.Each holds := by
  cases performs with
  | effect =>
    obtain ⟨_, lower⟩ := List.forall_mem_append.mp each.stack
    refine ⟨each.locals, List.forall_mem_append.mpr ⟨?_, lower⟩⟩
    exact fun value listed => results value (Option.mem_toList.mp listed)
  | @shuffle _ form taken rest _ =>
    obtain ⟨upper, lower⟩ := List.forall_mem_append.mp each.stack
    refine ⟨each.locals, List.forall_mem_append.mpr ⟨?_, lower⟩⟩
    intro value listed
    obtain ⟨place, _, found⟩ := List.mem_filterMap.mp listed
    exact upper value (List.mem_of_getElem? found)
  | element _ found =>
    obtain ⟨_, array, lower⟩ := List.forall_mem_cons.mp each.stack |>.imp_right List.forall_mem_cons.mp
    exact ⟨each.locals, List.forall_mem_cons.mpr ⟨elements _ _ array found, lower⟩⟩
  | load held usable =>
    have loaded := each.locals _ (List.mem_of_getElem? held) usable
    exact ⟨each.locals, List.forall_mem_cons.mpr ⟨loaded, each.stack⟩⟩
  | consult => exact each
  | @store slot _ value rest locals =>
    obtain ⟨top, lower⟩ := List.forall_mem_cons.mp each.stack
    exact ⟨each.store top slot, lower⟩
  | leave =>
    obtain ⟨_, lower⟩ := List.forall_mem_append.mp each.stack
    exact ⟨each.locals, lower⟩
  | receive =>
    obtain ⟨_, _, lower⟩ := List.forall_mem_append.mp each.stack |>.imp_right List.forall_mem_cons.mp
    refine ⟨each.locals, List.forall_mem_append.mpr ⟨?_, lower⟩⟩
    exact fun value listed => results value (Option.mem_toList.mp listed)
  | @construct _ _ _ receiver object rest locals _ _ made replaced =>
    obtain ⟨_, raw, lower⟩ := List.forall_mem_append.mp each.stack |>.imp_right List.forall_mem_cons.mp
    have below : (⟨locals, rest⟩ : Frame).Each holds := ⟨each.locals, lower⟩
    have middle := below.replace (objects receiver object raw made) receiver
    rw [← replaced] at middle
    refine ⟨middle.locals, List.forall_mem_append.mpr ⟨?_, middle.stack⟩⟩
    exact fun value listed => results value (Option.mem_toList.mp listed)

end Action

/-- A property of all values that enter the frames of a method. -/
structure Setting.Closed (setting : Setting) (holds : Value → Prop) : Prop where
  object : holds (.reference objectName)
  initial : setting.initial.Each holds
  results : ∀ index instruction action value, setting.flow.instructions[index]? = some instruction →
    Action.of? index instruction = some action → action.result? = some value → holds value
  elements : ∀ array value, holds array → Step.arrayElement array = .ok value → holds value
  objects : ∀ receiver value, holds receiver → setting.around.constructed? receiver = some value → holds value
  caught : ∀ handler ∈ setting.flow.handlers, holds (.reference handler.caught)

namespace Setting

theorem Closed.carries {setting : Setting} {holds : Value → Prop} (closed : setting.Closed holds) :
    setting.Carries fun _ frame =>
      frame.locals.length = setting.initial.locals.length ∧ frame.Each holds where
  initial := ⟨rfl, closed.initial⟩
  width _ _ fits := fits.1
  moves := by
    intro move before incoming fits passes
    refine ⟨passes.width.trans fits.1, ?_⟩
    cases passes with
    | goes present done =>
      obtain ⟨action, known, performs⟩ := (Action.transfer_follows _ _ _ _).mp done
      exact performs.each (fun value => closed.results _ _ action value present known) closed.elements
        closed.objects fits.2
    | throws _ _ listed => exact fits.2.withStack (closed.caught _ listed)
  merges _ _ _ _ fits fresh joined :=
    ⟨(Frame.merge_locals_length joined).trans fits.1, fits.2.merge closed.object fresh.2 joined⟩

end Setting
end Bytecode.Verify
