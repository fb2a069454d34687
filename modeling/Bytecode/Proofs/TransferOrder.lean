import Bytecode.Proofs.FrameMerges
import Bytecode.Proofs.MarkedFrames

/-! Transfers keep the order of frames, acceptance included, but for one loss: an array of primitives is
refused where elements are loaded as objects, and what it joins to is not. -/

namespace Bytecode.Verify

/-- An array whose elements are no references. -/
def Value.IsPrimitiveArray (array : Value) : Prop :=
  ∃ name element, array = .reference name ∧ name.toList = '[' :: element ∧
    ∀ type, FieldType.parse? element = some type → type.isReference = false

theorem arrayElement_refused_iff {array : Value} :
    (∃ text, Step.arrayElement array = .error (.typeMismatch .referenceArray (.name text))) ↔
      array.IsPrimitiveArray := by
  cases array with
  | reference name =>
    simp only [Step.arrayElement]
    split
    next element named =>
      cases parsed : FieldType.parse? element with
      | none => exact iff_of_true ⟨name, rfl⟩ ⟨name, element, rfl, named, by simp [parsed]⟩
      | some type =>
        cases object : type.isReference with
        | true =>
          refine iff_of_false (by simp [object]) ?_
          rintro ⟨_, rest, same, spelled, primitive⟩
          cases same
          cases named.symm.trans spelled
          cases object.symm.trans (primitive type parsed)
        | false =>
          refine iff_of_true ⟨name, by simp [object]⟩ ⟨name, element, rfl, named, ?_⟩
          intro other also
          cases parsed.symm.trans also
          exact object
    next plain =>
      constructor
      · rintro ⟨_, refused⟩
        cases refused
      · rintro ⟨_, element, same, spelled, _⟩
        cases same
        exact absurd spelled (plain element)
  | _ =>
    refine iff_of_false (by simp [Step.arrayElement]) ?_
    rintro ⟨_, _, same, _⟩
    cases same

/-- An object is to be loaded from an array of primitives, which lies under the index. -/
def Frame.LoadsFromPrimitives (frame : Frame) (instruction : Instruction) : Prop :=
  instruction = .simple .aaload ∧ ∃ array, frame.stack[1]? = some array ∧ array.IsPrimitiveArray

section
variable {around : Surroundings} {index : Nat} {instruction : Instruction} {lower upper after : Frame}

theorem not_loadsFromPrimitives {result : Frame}
    (accepted : (transfer around index instruction).run lower = .ok ((), result)) :
    ¬ lower.LoadsFromPrimitives instruction := by
  rintro ⟨rfl, array, held, primitive⟩
  obtain ⟨_, known, performs⟩ := (Action.transfer_follows index _ _ _).mp accepted
  cases known
  obtain ⟨text, missing⟩ := arrayElement_refused_iff.mpr primitive
  cases performs with
  | element _ found =>
    cases held
    cases found.symm.trans missing

theorem transfer_lower_of_ordinary (ordinary : around.isConstructor = false) (below : lower.Below upper)
    (accepted : (transfer around index instruction).run upper = .ok ((), after))
    (objects : ¬ lower.LoadsFromPrimitives instruction) :
    ∃ result, (transfer around index instruction).run lower = .ok ((), result) := by
  rcases transfer_lower below accepted with done | ⟨violation, refused, lost⟩
  · exact done
  · cases lost with
    | receiver constructs => cases ordinary.symm.trans constructs
    | element =>
      obtain ⟨_, known, performs⟩ := (Action.transfer_follows index _ _ _).mp accepted
      cases known
      obtain ⟨array, rest, same, _, ⟨result, loads⟩ | missing⟩ := performs.element_lowered below
      · exact ⟨result, (Action.transfer_follows index _ _ _).mpr ⟨.element, rfl, loads⟩⟩
      · exact absurd ⟨rfl, array, by simp [same], arrayElement_refused_iff.mp missing⟩ objects

/-- Outside constructors, what is done to a frame is done to every one that merges into it unseen, with a
result that merges so into the other; unless an object is loaded from an array of primitives. -/
theorem transfer_monotone_iff (ordinary : around.isConstructor = false)
    (width : lower.locals.length = upper.locals.length) (merges : upper.merge lower = .ok upper)
    (accepted : (transfer around index instruction).run upper = .ok ((), after)) :
    (∃ result, (transfer around index instruction).run lower = .ok ((), result) ∧
      result.locals.length = after.locals.length ∧ after.merge result = .ok after) ↔
        ¬ lower.LoadsFromPrimitives instruction := by
  have below := Frame.below_iff_merge.mpr ⟨width, merges⟩
  constructor
  · rintro ⟨result, done, _⟩
    exact not_loadsFromPrimitives done
  · intro objects
    obtain ⟨result, done⟩ := transfer_lower_of_ordinary ordinary below accepted objects
    exact ⟨result, done, Frame.below_iff_merge.mp (transfer_below below done accepted)⟩

end

/-- An index over an array of a type, or over any object. -/
def indexed (array : String) : Frame := ⟨[], [.int, .reference array]⟩

/-- Loads from an object that may be an array. -/
def loading : Surroundings := ⟨"Main", false, some (.object objectName), 2⟩

def loaded : Frame := ⟨[], [.reference objectName]⟩

theorem objects_load : (transfer loading 0 (.simple .aaload)).run (indexed objectName) = .ok ((), loaded) := by
  decide +kernel

theorem transfer_monotone_iff_nested : loading.isConstructor = false ∧
    (indexed objectName).merge (indexed "[[I") = .ok (indexed objectName) ∧
    (transfer loading 0 (.simple .aaload)).run (indexed objectName) = .ok ((), loaded) ∧
    ∃ result, (transfer loading 0 (.simple .aaload)).run (indexed "[[I") = .ok ((), result) ∧
      result.locals.length = loaded.locals.length ∧ loaded.merge result = .ok loaded := by
  have merges : (indexed objectName).merge (indexed "[[I") = .ok (indexed objectName) := rfl
  have width : (indexed "[[I").locals.length = (indexed objectName).locals.length := rfl
  refine ⟨rfl, merges, objects_load, (transfer_monotone_iff rfl width merges objects_load).mpr ?_⟩
  rintro ⟨_, _, held, name, element, rfl, spelled, primitive⟩
  cases held
  have named : "[[I".toList = ['[', '[', 'I'] := by decide
  obtain rfl : element = ['[', 'I'] := (List.cons.inj (spelled.symm.trans named)).2
  exact Bool.noConfusion (primitive (.array .int) (by decide))

/-- Two arrays of primitives are refused each, and what they join to is accepted; so is the method that
loads from it. -/
theorem joined_arrays_load : loading.isConstructor = false ∧
    (indexed "[I").merge (indexed "[J") = .ok (indexed objectName) ∧
    (indexed objectName).merge (indexed "[I") = .ok (indexed objectName) ∧
    (indexed objectName).merge (indexed "[J") = .ok (indexed objectName) ∧
    (transfer loading 0 (.simple .aaload)).run (indexed objectName) = .ok ((), loaded) ∧
    (transfer loading 0 (.simple .aaload)).run (indexed "[I") = .error (.typeMismatch .referenceArray (.name "[I")) ∧
    (transfer loading 0 (.simple .aaload)).run (indexed "[J") = .error (.typeMismatch .referenceArray (.name "[J")) ∧
    (Verifier.buildVerifier.analyze Verifier.choose).toOption.isSome = true := by
  refine ⟨rfl, rfl, rfl, rfl, objects_load, ?_, ?_, ?_⟩ <;> decide +kernel

end Bytecode.Verify
