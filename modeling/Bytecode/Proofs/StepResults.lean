import Bytecode.Verify.Step
import Mathlib.Data.List.Forall2

/-! What each elementary step asks of the frame before it and leaves behind, for the runs
that break no rule. Instructions are understood through these facts alone. -/

namespace Bytecode.Verify
open List

/-- A value in a local can be used where a value of another kind is wanted. -/
def Value.Serves (value wanted : Value) : Prop :=
  match wanted with
  | .reference _ => value.isReference = true
  | wanted => value = wanted

/-- What a store at a slot leaves in the local at an index. -/
def overwrite (slot : Nat) (value : Value) (index : Nat) (old : Value) : Value :=
  if index = slot then value
  else if index = slot + 1 ∧ value.isWide then .empty
  else if index + 1 = slot ∧ old.isWide then .empty
  else old

/-- A value meets what an instruction asks of it. -/
def Demand.Meets (demand : Demand) (value : Value) : Prop := demand.accepts value = true

@[simp] theorem stackHeight_append (upper lower : List Value) :
    stackHeight (upper ++ lower) = stackHeight upper + stackHeight lower := by
  induction upper with
  | nil => simp [stackHeight]
  | cons value rest ih => simp [stackHeight, ih, Nat.add_assoc]

theorem except_bind_ok {ε α β : Type} {first : Except ε α} {next : α → Except ε β} {result : β} :
    first >>= next = .ok result ↔ ∃ outcome, first = .ok outcome ∧ next outcome = .ok result := by
  cases first <;> simp [bind, Except.bind]

theorem except_bind_error {ε α β : Type} {first : Except ε α} {next : α → Except ε β} {failure : ε} :
    first >>= next = .error failure ↔
      first = .error failure ∨ ∃ outcome, first = .ok outcome ∧ next outcome = .error failure := by
  cases first <;> simp [bind, Except.bind]

theorem except_map_bind {ε α β γ : Type} {first : Except ε α} {next : α → Except ε β} {f : β → γ} :
    (first >>= next).map f = first >>= fun outcome => (next outcome).map f := by
  cases first <;> rfl

theorem except_bind_map {ε α β γ : Type} {first : Except ε α} {f : α → β} {next : β → Except ε γ} :
    first.map f >>= next = first >>= fun outcome => next (f outcome) := by
  cases first <;> rfl

theorem except_mapError_bind {ε δ α β : Type} {first : Except ε α} {next : α → Except ε β} {rename : ε → δ} :
    (first >>= next).mapError rename = first.mapError rename >>= fun outcome => (next outcome).mapError rename := by
  cases first <;> rfl

theorem map_ok {ε α β : Type} {first : Except ε α} {f : α → β} {result : β} :
    first.map f = .ok result ↔ ∃ outcome, first = .ok outcome ∧ f outcome = result := by
  cases first <;> simp [Except.map]

theorem map_error {ε α β : Type} {first : Except ε α} {f : α → β} {failure : ε} :
    first.map f = .error failure ↔ first = .error failure := by
  cases first <;> simp [Except.map]

theorem mapError_ok {ε δ α : Type} {first : Except ε α} {rename : ε → δ} {result : α} :
    first.mapError rename = .ok result ↔ first = .ok result := by
  cases first <;> simp [Except.mapError]

theorem mapError_error {ε δ α : Type} {first : Except ε α} {rename : ε → δ} {failure : δ} :
    first.mapError rename = .error failure ↔ ∃ cause, first = .error cause ∧ rename cause = failure := by
  cases first <;> simp [Except.mapError]

theorem mapM_ok_iff {ε α β : Type} {f : α → Except ε β} {inputs : List α} {outputs : List β} :
    inputs.mapM f = .ok outputs ↔ Forall₂ (fun input output => f input = .ok output) inputs outputs := by
  induction inputs generalizing outputs with
  | nil => simp [pure, Except.pure, eq_comm]
  | cons input rest ih =>
    rw [List.mapM_cons, List.forall₂_cons_left_iff]
    simp only [except_bind_ok, ih]
    constructor
    · intro mapped
      obtain ⟨value, first, values, others, same⟩ := mapped
      cases same
      exact ⟨value, values, first, others, rfl⟩
    · intro mapped
      obtain ⟨value, values, first, others, rfl⟩ := mapped
      exact ⟨value, first, values, others, rfl⟩

theorem mapM_mapError {ε δ α β γ : Type} {f : α → Except ε β} {g : γ → Except δ β} {replace : α → γ}
    {rename : ε → δ} (each : ∀ input, g (replace input) = (f input).mapError rename) (inputs : List α) :
    (inputs.map replace).mapM g = (inputs.mapM f).mapError rename := by
  induction inputs with
  | nil => rfl
  | cons input rest ih =>
    simp only [List.map_cons, List.mapM_cons, each, ih, except_mapError_bind]
    rfl

/-- Folds fail alike whose steps fail alike. -/
theorem foldlM_mapError {ε δ α γ σ : Type} {f : σ → α → Except ε σ} {g : σ → γ → Except δ σ} {replace : α → γ}
    {rename : ε → δ} (each : ∀ before input, g before (replace input) = (f before input).mapError rename)
    (inputs : List α) (first : σ) : (inputs.map replace).foldlM g first = (inputs.foldlM f first).mapError rename := by
  induction inputs generalizing first with
  | nil => rfl
  | cons input rest ih =>
    simp only [List.map_cons, List.foldlM_cons, each, ih, except_mapError_bind]

/-- A map fails at the first of its inputs that does. -/
theorem mapM_error {ε α β : Type} {f : α → Except ε β} {inputs : List α} {failure : ε}
    (failed : inputs.mapM f = .error failure) : ∃ before input after, inputs = before ++ input :: after ∧
      (∀ earlier ∈ before, ∃ output, f earlier = .ok output) ∧ f input = .error failure := by
  induction inputs with
  | nil => cases failed
  | cons input rest ih =>
    rw [List.mapM_cons] at failed
    rcases except_bind_error.mp failed with here | ⟨output, first, failed⟩
    · exact ⟨[], input, rest, rfl, nofun, here⟩
    · rcases except_bind_error.mp failed with later | ⟨_, _, impossible⟩
      · obtain ⟨before, other, after, rfl, through, fails⟩ := ih later
        exact ⟨input :: before, other, after, rfl, List.forall_mem_cons.mpr ⟨⟨output, first⟩, through⟩, fails⟩
      · cases impossible

/-- A fold fails at the first step that does. -/
theorem foldlM_error {ε α σ : Type} {f : σ → α → Except ε σ} {inputs : List α} {first : σ} {failure : ε}
    (failed : inputs.foldlM f first = .error failure) : ∃ before input after middle,
      inputs = before ++ input :: after ∧ before.foldlM f first = .ok middle ∧ f middle input = .error failure := by
  induction inputs generalizing first with
  | nil => cases failed
  | cons input rest ih =>
    rw [List.foldlM_cons] at failed
    rcases except_bind_error.mp failed with here | ⟨next, step, failed⟩
    · exact ⟨[], input, rest, first, rfl, rfl, here⟩
    · obtain ⟨before, other, after, middle, rfl, folded, fails⟩ := ih failed
      exact ⟨input :: before, other, after, middle, rfl, except_bind_ok.mpr ⟨next, step, folded⟩, fails⟩

/-- What holds of the inputs that a fold is through with and of the state after them. -/
theorem foldlM_prefix {ε α σ : Type} {f : σ → α → Except ε σ} {inputs : List α} {first last : σ}
    (holds : List α → σ → Prop) (start : holds [] first)
    (step : ∀ before input rest middle next, inputs = before ++ input :: rest → holds before middle →
      f middle input = .ok next → holds (before ++ [input]) next)
    (folded : inputs.foldlM f first = .ok last) : holds inputs last := by
  have onward (rest : List α) : ∀ (before : List α) (middle : σ), inputs = before ++ rest → holds before middle →
      rest.foldlM f middle = .ok last → holds inputs last := by
    induction rest with
    | nil =>
      intro before middle whole held folded
      cases folded
      rw [whole, List.append_nil]
      exact held
    | cons input rest ih =>
      intro before middle whole held folded
      rw [List.foldlM_cons] at folded
      obtain ⟨next, done, folded⟩ := except_bind_ok.mp folded
      exact ih (before ++ [input]) next (by simp [whole]) (step before input rest middle next whole held done) folded
  exact onward inputs [] first rfl start folded

/-- What every step of a fold keeps holds of its result. -/
theorem foldlM_holds {ε α σ : Type} {f : σ → α → Except ε σ} {inputs : List α} {first last : σ}
    (holds : σ → Prop) (start : holds first)
    (step : ∀ before input after, input ∈ inputs → holds before → f before input = .ok after → holds after)
    (folded : inputs.foldlM f first = .ok last) : holds last := by
  apply foldlM_prefix (fun _ => holds) start ?_ folded
  intro before input rest middle next whole held done
  exact step middle input next (whole ▸ List.mem_append_right _ List.mem_cons_self) held done

namespace Step
variable {α β : Type} {before after : Frame} {limit slot : Nat} {done : Unit} {value : Value}

theorem bind_ok {first : Step α} {next : α → Step β} {result : β} :
    (first >>= next).run before = .ok (result, after) ↔
      ∃ outcome middle, first.run before = .ok (outcome, middle) ∧
        (next outcome).run middle = .ok (result, after) := by
  rw [StateT.run_bind, except_bind_ok]
  simp only [Prod.exists]

theorem pure_ok {outcome result : α} :
    (pure outcome : Step α).run before = .ok (result, after) ↔
      result = outcome ∧ after = before := by
  rw [StateT.run_pure]
  simp [pure, Except.pure, eq_comm]

theorem get_ok {frame : Frame} :
    (get : Step Frame).run before = .ok (frame, after) ↔ frame = before ∧ after = before := by
  rw [StateT.run_get]
  simp [pure, Except.pure, eq_comm]

@[simp] theorem fail_ok {violation : Violation} {result : α} :
    (fail violation : Step α).run before = .ok (result, after) ↔ False :=
  iff_of_false (fun impossible => by cases impossible) id

theorem push_ok : (push limit value).run before = .ok (done, after) ↔
    value.size + stackHeight before.stack ≤ limit ∧
      after = ⟨before.locals, value :: before.stack⟩ := by
  simp only [push, StateT.run, Frame.stackSize, Nat.add_comm value.size]
  by_cases fits : stackHeight before.stack + value.size ≤ limit
  · simp [fits, eq_comm]
  · simp [fits]

theorem pop_ok : pop.run before = .ok (value, after) ↔
    before = ⟨after.locals, value :: after.stack⟩ := by
  obtain ⟨locals, stack⟩ := before
  obtain ⟨left, rest⟩ := after
  cases stack with
  | nil => simp [pop, StateT.run]
  | cons top below => simp [pop, StateT.run]; grind

theorem popAs_ok {demand : Demand} : (popAs demand).run before = .ok (value, after) ↔
    demand.Meets value ∧ before = ⟨after.locals, value :: after.stack⟩ := by
  simp only [popAs, bind_ok, pop_ok, Demand.Meets]
  constructor
  · rintro ⟨top, middle, rfl, kept⟩
    split at kept
    next accepted =>
      obtain ⟨rfl, rfl⟩ := pure_ok.mp kept
      exact ⟨accepted, rfl⟩
    next => simp at kept
  · rintro ⟨accepted, rfl⟩
    exact ⟨value, after, rfl, by simp only [accepted, if_true, pure_ok, and_self]⟩

theorem popSingle_ok {opcode : Opcode} : (popSingle opcode).run before = .ok (value, after) ↔
    value.isWide = false ∧ before = ⟨after.locals, value :: after.stack⟩ := by
  simp only [popSingle, bind_ok, pop_ok]
  constructor
  · rintro ⟨top, middle, rfl, kept⟩
    split at kept
    next => simp at kept
    next single =>
      obtain ⟨rfl, rfl⟩ := pure_ok.mp kept
      exact ⟨by simpa using single, rfl⟩
  · rintro ⟨single, rfl⟩
    exact ⟨value, after, rfl, by simp only [single, Bool.false_eq_true, if_false, pure_ok, and_self]⟩

theorem popEach_ok {demands : List Demand} : (popEach demands).run before = .ok (done, after) ↔
    ∃ popped, Forall₂ Demand.Meets demands popped ∧
      before = ⟨after.locals, popped ++ after.stack⟩ := by
  induction demands generalizing before with
  | nil =>
    simp only [popEach, pure_ok, true_and]
    constructor
    · rintro rfl
      exact ⟨[], .nil, rfl⟩
    · rintro ⟨_, _ | _, same⟩
      exact same.symm
  | cons demand rest ih =>
    simp only [popEach, bind_ok, popAs_ok, ih]
    constructor
    · rintro ⟨top, middle, ⟨meets, rfl⟩, popped, others, rfl⟩
      exact ⟨top :: popped, .cons meets others, rfl⟩
    · rintro ⟨_, _ | ⟨meets, others⟩, rfl⟩
      exact ⟨_, ⟨after.locals, _ ++ after.stack⟩, ⟨meets, rfl⟩, _, others, rfl⟩

/-- The values pushed first end lowest. Only the whole has to fit: what is pushed on the way
is no taller. -/
theorem pushAll_ok {values : List Value} : (pushAll limit values).run before = .ok (done, after) ↔
    (values = [] ∨ stackHeight (values.reverse ++ before.stack) ≤ limit) ∧
      after = ⟨before.locals, values.reverse ++ before.stack⟩ := by
  induction values generalizing before with
  | nil =>
    simp only [pushAll, pure_ok, true_or, true_and, List.reverse_nil, List.nil_append]
  | cons value rest ih =>
    simp only [pushAll, bind_ok, push_ok, ih]
    constructor
    · rintro ⟨_, middle, ⟨fits, rfl⟩, tall, rfl⟩
      refine ⟨.inr ?_, by simp⟩
      rcases tall with rfl | tall
      · simpa [stackHeight] using fits
      · simpa [stackHeight, Nat.add_assoc] using tall
    · rintro ⟨tall, rfl⟩
      have tall : stackHeight rest.reverse + (value.size + stackHeight before.stack) ≤ limit := by
        simpa [stackHeight, Nat.add_assoc] using tall
      exact ⟨(), _, ⟨by omega, rfl⟩, .inr (by simpa [stackHeight] using tall), by simp⟩

theorem load_ok {wanted : Value} : (load slot wanted).run before = .ok (value, after) ↔
    before.locals[slot]? = some value ∧ value ≠ .empty ∧ value.Serves wanted ∧
      after = before := by
  simp only [load, StateT.run, Frame.local?, Value.Serves, Value.isEmpty]
  cases before.locals[slot]? with
  | none => simp
  | some held => cases wanted <;> grind

private theorem clearWideBefore_getElem? (locals : List Value) (slot index : Nat) :
    (clearWideBefore locals slot)[index]? = locals[index]?.map fun old =>
      if index + 1 = slot ∧ old.isWide then .empty else old := by
  cases slot with
  | zero => simp [clearWideBefore]
  | succ before =>
    simp only [clearWideBefore, Nat.add_right_cancel_iff]
    by_cases same : index = before
    · subst same
      cases found : locals[index]? with
      | none => simp [found]
      | some old =>
        have inside : index < locals.length := (List.getElem?_eq_some_iff.mp found).1
        by_cases wide : old.isWide <;> simp_all
    · have apart : ¬ before = index := fun equal => same equal.symm
      split <;> simp [same, apart]

/-- The code's three writes together change each local as `overwrite` says. -/
theorem store_locals (locals : List Value) (inside : slot + value.size ≤ locals.length) :
    (if value.isWide then (clearWideBefore locals slot).set (slot + 1) .empty
      else clearWideBefore locals slot).set slot value = locals.mapIdx (overwrite slot value) := by
  have width : value.isWide = true → slot + 1 < locals.length := by
    simp only [Value.isWide, beq_iff_eq]
    omega
  have room : slot < locals.length := by
    have : 0 < value.size := by cases value <;> simp [Value.size]
    omega
  have length : (clearWideBefore locals slot).length = locals.length := by
    cases slot with
    | zero => rfl
    | succ before => simp only [clearWideBefore]; split <;> simp
  apply List.ext_getElem?
  intro index
  rw [List.getElem?_mapIdx]
  by_cases here : index = slot
  · subst here
    split <;> simp [length, room, overwrite]
  · have apart : ¬ slot = index := fun equal => here equal.symm
    by_cases next : index = slot + 1 ∧ value.isWide = true
    · obtain ⟨rfl, wide⟩ := next
      simp [wide, length, width wide, overwrite]
    · have untouched : (if value.isWide then (clearWideBefore locals slot).set (slot + 1) .empty
          else clearWideBefore locals slot)[index]? = (clearWideBefore locals slot)[index]? := by
        split
        next wide => exact List.getElem?_set_ne (fun equal => next ⟨equal.symm, wide⟩)
        next => rfl
      rw [List.getElem?_set_ne apart, untouched, clearWideBefore_getElem?]
      cases locals[index]? <;> simp only [Option.map_none, Option.map_some, overwrite, here, next,
        if_false]

theorem store_ok : (store slot value).run before = .ok (done, after) ↔
    slot + value.size ≤ before.locals.length ∧
      after = ⟨before.locals.mapIdx (overwrite slot value), before.stack⟩ := by
  simp only [store, StateT.run]
  split
  next inside =>
    simp only [store_locals before.locals inside, Except.ok.injEq, Prod.mk.injEq, true_and, inside]
    exact eq_comm
  next outside => simp [outside]

end Step
end Bytecode.Verify
