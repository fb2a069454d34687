import Bytecode.Verify.Frame
import Bytecode.Proofs.Pointwise

/-! The order in which frames lose precision. A merge that succeeds is the least
frame above both of its arguments; nothing here depends on how frames arise. -/

namespace Bytecode.Verify
namespace Value

/-- Merging the two gives back the upper one. -/
def Below (lower upper : Value) : Prop := lower.merge upper = some upper

/-- In a local an unusable value is above every other, since locals always join. -/
def BelowLocal (lower upper : Value) : Prop := upper = empty ∨ lower.Below upper

@[simp] theorem merge_self (value : Value) : value.merge value = some value := by simp [merge]

theorem below_iff {lower upper : Value} :
    lower.Below upper ↔ lower = upper ∨ (lower = null ∧ ∃ name, upper = reference name) ∨
      ((∃ name, lower = reference name) ∧ upper = reference objectName) := by
  by_cases same : lower = upper
  · simp [Below, same]
  · cases lower <;> cases upper <;> simp_all [Below, merge, eq_comm]

@[refl] theorem Below.refl (value : Value) : value.Below value := merge_self value

theorem Below.trans {first second third : Value} (lower : first.Below second)
    (upper : second.Below third) : first.Below third := by
  rw [below_iff] at *
  grind

theorem merge_comm (left right : Value) : left.merge right = right.merge left := by
  by_cases same : left = right
  · rw [same]
  · cases left <;> cases right <;> simp_all [merge, eq_comm]

theorem merge_cases {left right merged : Value} (joined : left.merge right = some merged) :
    (left.Below right ∧ merged = right) ∨ (right.Below left ∧ merged = left) ∨
      ((∃ name, left = reference name) ∧ (∃ name, right = reference name) ∧
        merged = reference objectName) := by
  by_cases same : left = right
  · subst same
    exact .inl ⟨.refl left, by simpa using joined.symm⟩
  · cases left <;> cases right <;> simp_all [Below, merge]

theorem merge_upper {left right merged : Value} (joined : left.merge right = some merged) :
    left.Below merged ∧ right.Below merged := by
  rcases merge_cases joined with ⟨below, rfl⟩ | ⟨below, rfl⟩ | ⟨first, second, rfl⟩
  · exact ⟨below, .refl _⟩
  · exact ⟨.refl _, below⟩
  · exact ⟨below_iff.mpr (.inr (.inr ⟨first, rfl⟩)), below_iff.mpr (.inr (.inr ⟨second, rfl⟩))⟩

theorem merge_least {left right merged upper : Value} (joined : left.merge right = some merged)
    (lower : left.Below upper) (other : right.Below upper) : merged.Below upper := by
  rcases merge_cases joined with ⟨_, rfl⟩ | ⟨_, rfl⟩ | ⟨⟨first, rfl⟩, ⟨second, rfl⟩, rfl⟩
  · exact other
  · exact lower
  · rw [below_iff] at *
    grind [merge]

/-- Values with a common upper value merge. -/
theorem merge_of_below {left right upper : Value} (lower : left.Below upper)
    (other : right.Below upper) : ∃ merged, left.merge right = some merged := by
  have references (first second : String) :
      ∃ merged, (reference first).merge (reference second) = some merged := by
    by_cases same : first = second <;> simp [merge, same]
  rcases below_iff.mp lower with rfl | ⟨rfl, _, rfl⟩ | ⟨⟨first, rfl⟩, rfl⟩
  · exact ⟨left, by rw [merge_comm]; exact other⟩
  · rcases below_iff.mp other with rfl | ⟨rfl, _⟩ | ⟨⟨second, rfl⟩, _⟩ <;> simp [merge]
  · rcases below_iff.mp other with rfl | ⟨rfl, _⟩ | ⟨⟨second, rfl⟩, _⟩
    · exact references first objectName
    · simp [merge]
    · exact references first second

theorem merge_eq_left_iff {held value : Value} :
    held.merge value = some held ↔ value.Below held := by
  constructor
  · exact fun joined => (merge_upper joined).2
  · intro below
    rcases below_iff.mp below with rfl | ⟨rfl, _, rfl⟩ | ⟨⟨_, rfl⟩, rfl⟩ <;> simp [merge]

/-- Values in order take equally many slots, whichever of the two is looked at. -/
theorem Below.size_eq {lower upper : Value} (below : lower.Below upper) :
    lower.size = upper.size := by
  rcases below_iff.mp below with rfl | ⟨rfl, _, rfl⟩ | ⟨⟨_, rfl⟩, rfl⟩ <;> rfl

@[refl] theorem BelowLocal.refl (value : Value) : value.BelowLocal value := .inr (.refl value)

theorem Below.of_empty {upper : Value} (below : empty.Below upper) : upper = empty := by
  rcases below_iff.mp below with same | ⟨impossible, _⟩ | ⟨⟨_, impossible⟩, _⟩
  · exact same.symm
  · cases impossible
  · cases impossible

theorem BelowLocal.trans {first second third : Value} (lower : first.BelowLocal second)
    (upper : second.BelowLocal third) : first.BelowLocal third := by
  rcases upper with unusable | upper
  · exact .inl unusable
  · rcases lower with rfl | lower
    · exact .inl upper.of_empty
    · exact .inr (lower.trans upper)

theorem join_upper (left right : Value) :
    left.BelowLocal (left.join right) ∧ right.BelowLocal (left.join right) := by
  unfold join
  cases joined : left.merge right with
  | none => exact ⟨.inl rfl, .inl rfl⟩
  | some merged => exact ⟨.inr (merge_upper joined).1, .inr (merge_upper joined).2⟩

theorem join_least {left right upper : Value} (lower : left.BelowLocal upper)
    (other : right.BelowLocal upper) : (left.join right).BelowLocal upper := by
  rcases lower with unusable | lower
  · exact .inl unusable
  rcases other with unusable | other
  · exact .inl unusable
  obtain ⟨merged, joined⟩ := merge_of_below lower other
  exact .inr (by simpa [join, joined] using merge_least joined lower other)

theorem join_eq_left_iff {held value : Value} :
    held.join value = held ↔ value.BelowLocal held := by
  constructor
  · exact fun same => same ▸ (join_upper held value).2
  · rintro (rfl | below)
    · cases joined : empty.merge value with
      | none => simp [join, joined]
      | some merged => simp [join, joined, (merge_upper joined).1.of_empty]
    · simp [join, merge_eq_left_iff.mpr below]

end Value

open List

theorem mergeStack_ok {left right merged : List Value} (same : left.length = right.length)
    (joined : mergeStack left right = .ok merged) :
    Forall₂ Value.Below left merged ∧ Forall₂ Value.Below right merged ∧
      ∀ upper, Forall₂ Value.Below left upper → Forall₂ Value.Below right upper →
        Forall₂ Value.Below merged upper := by
  induction left generalizing right merged with
  | nil =>
    obtain rfl : right = [] := List.length_eq_zero_iff.mp same.symm
    cases joined
    exact ⟨.nil, .nil, fun _ lower _ => lower⟩
  | cons value below ih =>
    obtain ⟨other, rest, rfl⟩ := List.exists_cons_of_length_eq_add_one same.symm
    simp only [mergeStack] at joined
    split at joined
    · cases joined
    next beneath kept =>
      split at joined
      next top found =>
        cases joined
        obtain ⟨lower, upper, least⟩ := ih (by simpa using same) kept
        refine ⟨.cons (Value.merge_upper found).1 lower, .cons (Value.merge_upper found).2 upper, ?_⟩
        rintro _ (_ | ⟨first, firsts⟩) (_ | ⟨second, seconds⟩)
        exact .cons (Value.merge_least found first second) (least _ firsts seconds)
      · cases joined

theorem mergeStack_of_below {left right upper : List Value} (lower : Forall₂ Value.Below left upper)
    (other : Forall₂ Value.Below right upper) : ∃ merged, mergeStack left right = .ok merged := by
  induction lower generalizing right with
  | nil =>
    cases other
    exact ⟨[], rfl⟩
  | cons first rest ih =>
    cases other with
    | cons second others =>
      obtain ⟨below, kept⟩ := ih others
      obtain ⟨top, found⟩ := Value.merge_of_below first second
      exact ⟨top :: below, by simp [mergeStack, kept, found]⟩

theorem mergeLocals_ok {left right : List Value} (same : left.length = right.length) :
    Forall₂ Value.BelowLocal left (mergeLocals left right) ∧
      Forall₂ Value.BelowLocal right (mergeLocals left right) ∧
      ∀ upper, Forall₂ Value.BelowLocal left upper → Forall₂ Value.BelowLocal right upper →
        Forall₂ Value.BelowLocal (mergeLocals left right) upper := by
  have whole : mergeLocals left right = List.zipWith Value.join left right := by
    simp [mergeLocals, ← same]
  rw [whole]
  induction left generalizing right with
  | nil =>
    obtain rfl : right = [] := List.length_eq_zero_iff.mp same.symm
    exact ⟨.nil, .nil, fun _ lower _ => lower⟩
  | cons value rest ih =>
    obtain ⟨other, others, rfl⟩ := List.exists_cons_of_length_eq_add_one same.symm
    have same : rest.length = others.length := by simpa using same
    obtain ⟨lower, upper, least⟩ := ih same (by simp [mergeLocals, ← same])
    obtain ⟨first, second⟩ := Value.join_upper value other
    refine ⟨.cons first lower, .cons second upper, ?_⟩
    rintro _ (_ | ⟨below, belows⟩) (_ | ⟨under, unders⟩)
    exact .cons (Value.join_least below under) (least _ belows unders)

theorem mergeLocals_length (left right : List Value) :
    (mergeLocals left right).length = left.length := by
  simp [mergeLocals]
  omega

namespace Frame

/-- Equally many locals, equally tall stacks, and every entry in order. -/
structure Below (lower upper : Frame) : Prop where
  locals : Forall₂ Value.BelowLocal lower.locals upper.locals
  stack : Forall₂ Value.Below lower.stack upper.stack

theorem Below.refl (frame : Frame) : frame.Below frame :=
  ⟨List.forall₂_same.mpr fun value _ => .refl value, List.forall₂_same.mpr fun value _ => .refl value⟩

theorem Below.trans {first second third : Frame} (lower : first.Below second)
    (upper : second.Below third) : first.Below third :=
  ⟨forall₂_comp (fun _ _ _ => .trans) lower.locals upper.locals,
    forall₂_comp (fun _ _ _ => .trans) lower.stack upper.stack⟩

theorem Below.withStack {lower upper : Frame} (below : lower.Below upper) (value : Value) :
    (lower.withStack value).Below (upper.withStack value) :=
  ⟨below.locals, .cons (.refl value) .nil⟩

theorem merge_locals_length {frame incoming merged : Frame}
    (joined : frame.merge incoming = .ok merged) : merged.locals.length = frame.locals.length := by
  unfold merge at joined
  split at joined
  · cases joined
  · split at joined
    · cases joined
    · cases joined
      exact mergeLocals_length ..

/-- The merge of two frames is the least one above both. -/
theorem merge_ok {frame incoming merged : Frame}
    (same : frame.locals.length = incoming.locals.length)
    (joined : frame.merge incoming = .ok merged) :
    frame.Below merged ∧ incoming.Below merged ∧
      ∀ upper, frame.Below upper → incoming.Below upper → merged.Below upper := by
  unfold merge at joined
  split at joined
  · cases joined
  next tall =>
    split at joined
    · cases joined
    next stack kept =>
      cases joined
      obtain ⟨first, second, least⟩ := mergeStack_ok (not_not.mp tall) kept
      obtain ⟨left, right, lowest⟩ := mergeLocals_ok same
      exact ⟨⟨left, first⟩, ⟨right, second⟩, fun upper lower other =>
        ⟨lowest _ lower.locals other.locals, least _ lower.stack other.stack⟩⟩

/-- Frames below a common one merge. -/
theorem merge_of_below {left right upper : Frame} (lower : left.Below upper)
    (other : right.Below upper) : ∃ merged, left.merge right = .ok merged := by
  obtain ⟨stack, kept⟩ := mergeStack_of_below lower.stack other.stack
  have tall : left.stack.length = right.stack.length :=
    lower.stack.length_eq.trans other.stack.length_eq.symm
  refine ⟨⟨mergeLocals left.locals right.locals, stack⟩, ?_⟩
  simp [merge, tall, kept]

private theorem all_zipWith {test : Value → Value → Bool} {relation : Value → Value → Prop}
    (sound : ∀ held value, test held value = true → relation value held) {first second : List Value}
    (same : first.length = second.length) (holds : (List.zipWith test first second).all id = true) :
    Forall₂ relation second first := by
  induction first generalizing second with
  | nil =>
    obtain rfl : second = [] := List.length_eq_zero_iff.mp same.symm
    exact .nil
  | cons held rest ih =>
    obtain ⟨value, others, rfl⟩ := List.exists_cons_of_length_eq_add_one same.symm
    simp only [List.zipWith_cons_cons, List.all_cons, id_eq, Bool.and_eq_true] at holds
    exact .cons (sound held value holds.1) (ih (by simpa using same) holds.2)

private theorem zipWith_all {test : Value → Value → Bool} {relation : Value → Value → Prop}
    (complete : ∀ held value, relation value held → test held value = true) {first second : List Value}
    (related : Forall₂ relation second first) : (List.zipWith test first second).all id = true := by
  induction related with
  | nil => rfl
  | cons head _ ih => simp only [List.zipWith_cons_cons, List.all_cons, complete _ _ head, ih, id, Bool.and_self]

/-- A frame that absorbs another of its shape is above it. -/
theorem absorbs_below {frame incoming : Frame}
    (locals : frame.locals.length = incoming.locals.length)
    (stack : frame.stack.length = incoming.stack.length)
    (absorbed : frame.absorbs incoming = true) : incoming.Below frame := by
  simp only [absorbs, Bool.and_eq_true] at absorbed
  refine ⟨all_zipWith ?_ locals absorbed.2, all_zipWith ?_ stack absorbed.1⟩
  · exact fun held value same => Value.join_eq_left_iff.mp (eq_of_beq same)
  · exact fun held value same => Value.merge_eq_left_iff.mp (eq_of_beq same)

theorem absorbs_of_below {frame incoming : Frame} (below : incoming.Below frame) :
    frame.absorbs incoming = true := by
  simp only [absorbs, Bool.and_eq_true]
  constructor
  · apply zipWith_all _ below.stack
    exact fun held value lower => beq_iff_eq.mpr (Value.merge_eq_left_iff.mpr lower)
  · apply zipWith_all _ below.locals
    exact fun held value lower => beq_iff_eq.mpr (Value.join_eq_left_iff.mpr lower)

end Frame
end Bytecode.Verify
