import Bytecode.Proofs.FrameOrder
import Bytecode.Proofs.Transfers

/-! An instruction that accepts two frames in order leaves frames in the same order. Nothing
is said of acceptance itself: a frame may be refused while one above it is accepted. -/

namespace Bytecode
open List

namespace StackForm

/-- Forms of one opcode never ask for the beginnings of one another. -/
private theorem eq_of_prefix (opcode : Opcode) : ∀ form ∈ ofOpcode opcode, ∀ other ∈ ofOpcode opcode,
    (form.taken <+: other.taken ∨ other.taken <+: form.taken) → form = other := by
  cases opcode <;> decide

theorem unique {opcode : Opcode} {form other : StackForm} {widths : List Bool}
    (known : form ∈ ofOpcode opcode) (also : other ∈ ofOpcode opcode)
    (first : form.taken <+: widths) (second : other.taken <+: widths) : form = other :=
  eq_of_prefix opcode form known other also (List.prefix_or_prefix_of_prefix first second)

/-- The form that fits is the one a search for it finds. -/
theorem find_eq {opcode : Opcode} {form : StackForm} {widths : List Bool}
    (known : form ∈ ofOpcode opcode) (fits : form.taken <+: widths) :
    (ofOpcode opcode).find? (fun form => widths.take form.taken.length = form.taken) = some form := by
  cases found : (ofOpcode opcode).find? (fun form => widths.take form.taken.length = form.taken) with
  | none =>
    have missing := List.find?_eq_none.mp found form known
    exact absurd (List.prefix_iff_eq_take.mp fits).symm (by simpa using missing)
  | some other =>
    have same : widths.take other.taken.length = other.taken := by
      simpa using List.find?_some found
    have prefixes : other.taken <+: widths := List.prefix_iff_eq_take.mpr same.symm
    rw [unique (List.mem_of_find?_eq_some found) known prefixes fits]

end StackForm

namespace Verify
namespace Value

theorem Below.isWide_eq {lower upper : Value} (below : lower.Below upper) :
    lower.isWide = upper.isWide := by
  rw [isWide, isWide, below.size_eq]

/-- Only itself stands in order with a value that is not initialized. -/
theorem Below.eq_of_uninitialized {lower upper : Value} (below : lower.Below upper)
    (raw : lower.isUninitialized = true ∨ upper.isUninitialized = true) : lower = upper := by
  rcases below_iff.mp below with same | ⟨rfl, _, rfl⟩ | ⟨⟨_, rfl⟩, rfl⟩
  · exact same
  · simp [isUninitialized] at raw
  · simp [isUninitialized] at raw

theorem ofType_reference {type : FieldType} (object : type.isReference = true) :
    ∃ name, ofType type = reference name := by
  cases type with
  | object name => exact ⟨name, rfl⟩
  | array element => exact ⟨_, rfl⟩
  | _ => simp [FieldType.isReference] at object

end Value

/-- Splitting two stacks in order after as many values as the same demands take. -/
theorem popped_split {demands : List Demand} {popped rest taken kept : List Value}
    (first : Forall₂ Demand.Meets demands popped) (second : Forall₂ Demand.Meets demands taken)
    (stack : Forall₂ Value.Below (popped ++ rest) (taken ++ kept)) :
    Forall₂ Value.Below popped taken ∧ Forall₂ Value.Below rest kept :=
  forall₂_append_split (first.length_eq.symm.trans second.length_eq) stack

/-- Stores of related values keep related locals so, if an unusable local is related to all. -/
theorem overwrite_related {relation : Value → Value → Prop} {slot : Nat} {value other : Value}
    (unusable : ∀ old, relation old .empty) (written : relation value other)
    (wide : value.isWide = other.isWide)
    (same : ∀ old kept, relation old kept → kept = .empty ∨ old.isWide = kept.isWide)
    {lower upper : List Value} (locals : Forall₂ relation lower upper) :
    Forall₂ relation (lower.mapIdx (overwrite slot value)) (upper.mapIdx (overwrite slot other)) := by
  refine forall₂_mapIdx ?_ locals
  intro index old kept held
  unfold overwrite
  rw [wide]
  by_cases here : index = slot
  · rw [if_pos here, if_pos here]
    exact written
  rw [if_neg here, if_neg here]
  by_cases next : index = slot + 1 ∧ other.isWide = true
  · rw [if_pos next, if_pos next]
    exact unusable _
  rw [if_neg next, if_neg next]
  rcases same old kept held with rfl | alike
  · rw [ite_self]
    exact unusable _
  · rw [alike]
    split
    next => exact unusable _
    next => exact held

theorem arrayElement_reference {name : String} {element : Value}
    (found : Step.arrayElement (.reference name) = .ok element) : ∃ text, element = .reference text := by
  simp only [Step.arrayElement] at found
  split at found
  · split at found
    · split at found
      next object =>
        cases found
        exact Value.ofType_reference object
      next => cases found
    · cases found
  · cases found
    exact ⟨_, rfl⟩

theorem arrayElement_below {lower upper value other : Value} (below : lower.Below upper)
    (found : Step.arrayElement lower = .ok value) (also : Step.arrayElement upper = .ok other) :
    value.Below other := by
  rcases Value.below_iff.mp below with rfl | ⟨rfl, name, rfl⟩ | ⟨⟨name, rfl⟩, rfl⟩
  · rw [found] at also
    cases also
    exact .refl _
  · cases found
    obtain ⟨text, rfl⟩ := arrayElement_reference also
    exact Value.below_iff.mpr (.inr (.inl ⟨rfl, text, rfl⟩))
  · obtain ⟨text, rfl⟩ := arrayElement_reference found
    cases also
    exact Value.below_iff.mpr (.inr (.inr ⟨⟨text, rfl⟩, rfl⟩))

theorem constructed?_uninitialized {around : Surroundings} {receiver object : Value}
    (made : around.constructed? receiver = some object) : receiver.isUninitialized = true := by
  cases receiver with
  | uninitializedThis | uninitialized => rfl
  | _ => cases made

namespace Frame

/-- Replacing a value that is not initialized keeps the order, since such a value stands in
order with itself alone. -/
theorem Below.replace {lower upper : Frame} {target : Value} (below : lower.Below upper)
    (raw : target.isUninitialized = true) (replacement : Value) :
    (lower.replace target replacement).Below (upper.replace target replacement) := by
  have swap {value other : Value} (ordered : value.Below other) :
      (if value = target then replacement else value).Below
        (if other = target then replacement else other) := by
    by_cases here : value = target
    · rw [← ordered.eq_of_uninitialized (.inl (here ▸ raw))]
    · have apart : other ≠ target := fun there =>
        here ((ordered.eq_of_uninitialized (.inr (there ▸ raw))).trans there)
      simpa [here, apart] using ordered
  constructor
  · refine List.rel_map ?_ below.locals
    intro value other ordered
    rcases ordered with rfl | ordered
    · have apart : Value.empty ≠ target := by
        intro same
        rw [← same] at raw
        cases raw
      exact .inl (if_neg apart)
    · exact .inr (swap ordered)
  · exact List.rel_map (fun value other ordered => swap ordered) below.stack

end Frame

namespace Action
variable {around : Surroundings}

theorem Performs.below {action : Action} {lower upper before after : Frame}
    (below : lower.Below upper) (first : Performs around action lower before)
    (second : Performs around action upper after) : before.Below after := by
  obtain ⟨locals, stack⟩ := below
  cases first with
  | effect meets =>
    cases second with
    | effect also =>
      obtain ⟨_, rest⟩ := popped_split meets also stack
      exact ⟨locals, List.rel_append (List.forall₂_same.mpr fun _ _ => .refl _) rest⟩
  | @shuffle _ form taken rest _ known widths =>
    cases second with
    | @shuffle _ other moved kept _ also among =>
      have equal : (taken ++ rest).map Value.isWide = (moved ++ kept).map Value.isWide :=
        List.forall₂_eq_eq_eq ▸ List.rel_map (fun _ _ ordered => ordered.isWide_eq) stack
      have left : form.taken <+: (taken ++ rest).map Value.isWide := by
        rw [← widths, List.map_append]
        exact List.prefix_append ..
      have right : other.taken <+: (taken ++ rest).map Value.isWide := by
        rw [← among, equal, List.map_append]
        exact List.prefix_append ..
      obtain rfl := StackForm.unique known also left right
      have length : taken.length = moved.length := by
        have := widths.trans among.symm
        simpa using congrArg List.length this
      obtain ⟨upper, lower⟩ := forall₂_append_split length stack
      exact ⟨locals, List.rel_append (StackForm.arrange_forall₂ form upper) lower⟩
  | element _ found =>
    cases second with
    | element _ also =>
      obtain ⟨_, stack⟩ := List.forall₂_cons.mp stack
      obtain ⟨array, rest⟩ := List.forall₂_cons.mp stack
      exact ⟨locals, .cons (arrayElement_below array found also) rest⟩
  | load held usable =>
    cases second with
    | load kept present =>
      obtain ⟨_, found, ordered⟩ := forall₂_held locals held
      rw [kept] at found
      cases found
      rcases ordered with unusable | below
      · exact absurd unusable present
      · exact ⟨locals, .cons below stack⟩
  | consult =>
    cases second with
    | consult => exact ⟨locals, stack⟩
  | store =>
    cases second with
    | store =>
      obtain ⟨value, rest⟩ := List.forall₂_cons.mp stack
      refine ⟨overwrite_related (fun _ => .inl rfl) (.inr value) value.isWide_eq ?_ locals, rest⟩
      exact fun _ _ ordered => ordered.imp id Value.Below.isWide_eq
  | leave _ meets =>
    cases second with
    | leave _ also => exact ⟨locals, (popped_split meets also stack).2⟩
  | receive meets =>
    cases second with
    | receive also =>
      obtain ⟨_, stack⟩ := popped_split meets also stack
      obtain ⟨_, rest⟩ := List.forall₂_cons.mp stack
      exact ⟨locals, List.rel_append (List.forall₂_same.mpr fun _ _ => .refl _) rest⟩
  | @construct _ _ _ _ object rest held _ meets made replaced =>
    cases second with
    | @construct _ _ _ _ _ kept lasting _ also built swapped =>
      obtain ⟨_, stack⟩ := popped_split meets also stack
      obtain ⟨receiver, below⟩ := List.forall₂_cons.mp stack
      have raw := constructed?_uninitialized made
      have same := receiver.eq_of_uninitialized (.inl raw)
      subst same
      obtain rfl := Option.some.inj (made.symm.trans built)
      subst replaced swapped
      have ordered : (⟨held, rest⟩ : Frame).Below ⟨lasting, kept⟩ := ⟨locals, below⟩
      have middle := ordered.replace raw object
      exact ⟨middle.locals, List.rel_append (List.forall₂_same.mpr fun _ _ => .refl _) middle.stack⟩

end Action

/-- The transfer of an instruction is monotone on the frames that it accepts. -/
theorem transfer_below {around : Surroundings} {index : Nat} {instruction : Instruction}
    {lower upper before after : Frame} (below : lower.Below upper)
    (first : (transfer around index instruction).run lower = .ok ((), before))
    (second : (transfer around index instruction).run upper = .ok ((), after)) :
    before.Below after := by
  obtain ⟨action, known, performs⟩ := (Action.transfer_follows index instruction _ _).mp first
  obtain ⟨other, also, acts⟩ := (Action.transfer_follows index instruction _ _).mp second
  obtain rfl := Option.some.inj (known.symm.trans also)
  exact performs.below below acts

end Verify
end Bytecode
