import Bytecode.Proofs.FixedPoint
import Bytecode.Proofs.TagRules

/-! Frames with their sites of creation renamed. Which number a site has does not matter to any
rule, as long as different sites keep different numbers. -/

namespace Bytecode.Verify
open List

namespace Value

/-- The value with the site of its creation renamed. -/
def relocate (rename : Nat → Nat) : Value → Value
  | uninitialized site name => uninitialized (rename site) name
  | value => value

variable {rename : Nat → Nat}

@[simp] theorem relocate_size (value : Value) : (value.relocate rename).size = value.size := by
  cases value <;> rfl

@[simp] theorem relocate_isWide (value : Value) : (value.relocate rename).isWide = value.isWide := by
  rw [isWide, isWide, relocate_size]

@[simp] theorem relocate_isReference (value : Value) :
    (value.relocate rename).isReference = value.isReference := by
  cases value <;> rfl

@[simp] theorem relocate_isUninitialized (value : Value) :
    (value.relocate rename).isUninitialized = value.isUninitialized := by
  cases value <;> rfl

theorem relocate_of_initialized {value : Value} (initialized : value.isUninitialized = false) :
    value.relocate rename = value := by
  cases value with
  | uninitialized => cases initialized
  | _ => rfl

@[simp] theorem relocate_ofType (type : FieldType) : (ofType type).relocate rename = ofType type := by
  cases type <;> rfl

theorem relocate_eq_empty {value : Value} : value.relocate rename = empty ↔ value = empty := by
  cases value <;> simp [relocate]

theorem relocate_eq_this {value : Value} {name : String} :
    value.relocate rename = uninitializedThis name ↔ value = uninitializedThis name := by
  cases value <;> simp [relocate]

theorem relocate_inj (different : Function.Injective rename) {value other : Value} :
    value.relocate rename = other.relocate rename ↔ value = other := by
  cases value <;> cases other <;> simp [relocate, different.eq_iff]

theorem Below.relocate {lower upper : Value} (below : lower.Below upper) :
    (lower.relocate rename).Below (upper.relocate rename) := by
  rcases below_iff.mp below with rfl | ⟨rfl, name, rfl⟩ | ⟨⟨name, rfl⟩, rfl⟩
  · exact .refl _
  · exact below
  · exact below

theorem BelowLocal.relocate {lower upper : Value} (below : lower.BelowLocal upper) :
    (lower.relocate rename).BelowLocal (upper.relocate rename) := by
  rcases below with rfl | below
  · exact .inl rfl
  · exact .inr below.relocate

end Value

variable {rename : Nat → Nat}

def Frame.relocate (rename : Nat → Nat) (frame : Frame) : Frame :=
  ⟨frame.locals.map (Value.relocate rename), frame.stack.map (Value.relocate rename)⟩

theorem Frame.Below.relocate {lower upper : Frame} (below : lower.Below upper) (rename : Nat → Nat) :
    (lower.relocate rename).Below (upper.relocate rename) :=
  ⟨List.rel_map (fun _ _ ordered => ordered.relocate) below.locals,
    List.rel_map (fun _ _ ordered => ordered.relocate) below.stack⟩

theorem Frame.replace_relocate (different : Function.Injective rename) (frame : Frame)
    (target replacement : Value) :
    (frame.relocate rename).replace (target.relocate rename) (replacement.relocate rename) =
      (frame.replace target replacement).relocate rename := by
  simp only [Frame.replace, Frame.relocate, List.map_map, Frame.mk.injEq]
  constructor <;>
  · apply List.map_congr_left
    intro value _
    simp only [Function.comp_apply, Value.relocate_inj different, apply_ite (Value.relocate rename)]

@[simp] theorem stackHeight_relocate (values : List Value) :
    stackHeight (values.map (Value.relocate rename)) = stackHeight values := by
  induction values with
  | nil => rfl
  | cons value rest ih => simp [stackHeight, ih]

theorem Demand.Meets.relocate {demand : Demand} {value : Value} {tag : Tag}
    (known : demand.tag? = some tag) (meets : demand.Meets value) :
    demand.Meets (value.relocate rename) := by
  cases demand with
  | reference => exact (Value.relocate_isReference value).trans meets
  | exactly wanted =>
    obtain rfl : value = wanted := eq_of_beq meets
    have initialized : value.isUninitialized = false := by
      cases value <;> first | rfl | simp [Demand.tag?, Value.isReference] at known
    rw [Value.relocate_of_initialized initialized]
    exact meets

theorem meets_relocated {demands : List Demand} {tags : List Tag} {popped : List Value}
    (known : demands.mapM Demand.tag? = some tags) (meets : Forall₂ Demand.Meets demands popped) :
    Forall₂ Demand.Meets demands (popped.map (Value.relocate rename)) := by
  induction meets generalizing tags with
  | nil => exact .nil
  | cons met rest ih =>
    simp only [List.mapM_cons, Option.pure_def, Option.bind_eq_bind, Option.bind_eq_some_iff] at known
    obtain ⟨tag, here, later, there, _⟩ := known
    exact .cons (met.relocate here) (ih there)

theorem Value.Serves.relocate {value kind : Value} {tag : Tag}
    (known : (Demand.ofKind kind).tag? = some tag) (serves : value.Serves kind) :
    (value.relocate rename).Serves kind :=
  Demand.meets_ofKind.mp ((Demand.meets_ofKind.mpr serves).relocate known)

theorem arrayElement_relocated {array value : Value} (found : Step.arrayElement array = .ok value) :
    Step.arrayElement (array.relocate rename) = .ok (value.relocate rename) := by
  cases array with
  | null =>
    cases found
    rfl
  | reference name =>
    obtain ⟨text, rfl⟩ := arrayElement_reference found
    exact found
  | _ => cases found

theorem constructed?_relocated {around : Surroundings} {receiver object : Value}
    (made : around.constructed? receiver = some object) :
    around.constructed? (receiver.relocate rename) = some (object.relocate rename) := by
  cases receiver with
  | uninitializedThis =>
    cases made
    rfl
  | uninitialized =>
    cases made
    rfl
  | _ => cases made

theorem overwrite_relocated (slot : Nat) (value : Value) (index : Nat) (old : Value) :
    overwrite slot (value.relocate rename) index (old.relocate rename) =
      (overwrite slot value index old).relocate rename := by
  simp only [overwrite, Value.relocate_isWide, apply_ite (Value.relocate rename)]
  rfl

theorem overwritten_relocated (slot : Nat) (value : Value) (locals : List Value) :
    (locals.mapIdx (overwrite slot value)).map (Value.relocate rename) =
      (locals.map (Value.relocate rename)).mapIdx (overwrite slot (value.relocate rename)) := by
  apply List.ext_getElem?
  intro index
  simp only [List.getElem?_map, List.getElem?_mapIdx, Option.map_map]
  congr 1
  funext old
  exact (overwrite_relocated slot value index old).symm

namespace Action

/-- The action with the sites of what it makes renamed. -/
def relocate (rename : Nat → Nat) : Action → Action
  | effect fixed => effect ⟨fixed.pops, fixed.result.map (Value.relocate rename)⟩
  | receive arguments result => receive arguments (result.map (Value.relocate rename))
  | construct arguments result => construct arguments (result.map (Value.relocate rename))
  | action => action

variable {around : Surroundings} {action : Action} {before after : Frame}

theorem Fits.relocate {result : Option Value} {rest : List Value} (fits : around.Fits result rest) :
    around.Fits (result.map (Value.relocate rename)) (rest.map (Value.relocate rename)) := by
  cases result with
  | none => exact .inl rfl
  | some value => simpa [Surroundings.Fits, stackHeight] using fits

private theorem toList_map (result : Option Value) :
    result.toList.map (Value.relocate rename) = (result.map (Value.relocate rename)).toList := by
  cases result <;> rfl

theorem Performs.relocate (different : Function.Injective rename) {rule : Rule}
    (known : action.rule? = some rule) (performs : Performs around action before after) :
    Performs around (action.relocate rename) (before.relocate rename) (after.relocate rename) := by
  cases performs with
  | @effect fixed popped rest locals meets fits =>
    simp only [rule?, Option.bind_eq_bind, Option.bind_eq_some_iff] at known
    obtain ⟨operands, kinds, _⟩ := known
    simp only [Action.relocate, Frame.relocate, List.map_append, toList_map]
    exact .effect (meets_relocated kinds meets) (Fits.relocate fits)
  | @shuffle opcode form taken rest locals listed widths fits =>
    simp only [Action.relocate, Frame.relocate, List.map_append, ← form.arrange_map]
    refine .shuffle listed ?_ ?_
    · simpa [Function.comp_def] using widths
    · rw [form.arrange_map, ← List.map_append, stackHeight_relocate]
      exact fits
  | @element array value rest locals object found fits =>
    refine .element (by simpa using object) (arrayElement_relocated found) ?_
    simpa [Surroundings.Fits, stackHeight] using fits
  | @load slot kind value stack locals held usable serves fits =>
    obtain ⟨tag, kinds, _⟩ := Option.map_eq_some_iff.mp known
    refine .load (by simp [held]) (fun empty => usable (Value.relocate_eq_empty.mp empty))
      (serves.relocate kinds) ?_
    simpa [Surroundings.Fits, stackHeight] using fits
  | @consult slot kind value stack locals held usable serves =>
    obtain ⟨tag, kinds, _⟩ := Option.map_eq_some_iff.mp known
    have renamed : (locals.map (Value.relocate rename))[slot]? = some (value.relocate rename) := by
      simp [held]
    exact .consult renamed (fun empty => usable (Value.relocate_eq_empty.mp empty)) (serves.relocate kinds)
  | @store slot kinds value rest locals meets inside =>
    obtain ⟨tags, wanted, _⟩ := Option.map_eq_some_iff.mp known
    obtain ⟨kind, listed, met⟩ := meets
    obtain ⟨tag, _, tagged⟩ := Demand.tag?_of_mem wanted listed
    simp only [Frame.relocate, overwritten_relocated]
    exact .store ⟨kind, listed, met.relocate tagged⟩ (by simpa using inside)
  | @leave returned popped rest locals declared meets initialized =>
    have tags : ∃ tags, returned.toList.mapM Demand.tag? = some tags := by
      cases returned with
      | none => exact ⟨[], rfl⟩
      | some demand =>
        obtain ⟨tag, found, _⟩ := Option.map_eq_some_iff.mp known
        exact ⟨[tag], by simp [found]⟩
    obtain ⟨tags, kinds⟩ := tags
    simp only [Action.relocate, Frame.relocate, List.map_append]
    refine .leave declared (meets_relocated kinds meets) ?_
    intro constructs name held
    rw [List.getElem?_map] at held
    obtain ⟨value, first, same⟩ := Option.map_eq_some_iff.mp held
    rw [Value.relocate_eq_this.mp same] at first
    exact initialized constructs name first
  | @receive arguments result popped receiver rest locals meets object initialized fits =>
    simp only [rule?, Option.bind_eq_bind, Option.bind_eq_some_iff] at known
    obtain ⟨operands, kinds, _⟩ := known
    simp only [Action.relocate, Frame.relocate, List.map_append, List.map_cons, toList_map]
    exact .receive (meets_relocated kinds meets) (by simpa using object) (by simpa using initialized)
      (Fits.relocate fits)
  | @construct arguments result popped receiver object rest locals middle meets made replaced fits =>
    simp only [rule?, Option.bind_eq_bind, Option.bind_eq_some_iff] at known
    obtain ⟨operands, kinds, _⟩ := known
    have swapped := Frame.replace_relocate different ⟨locals, rest⟩ receiver object
    rw [← replaced] at swapped
    simp only [Action.relocate, Frame.relocate, List.map_append, List.map_cons, toList_map]
    exact .construct (meets_relocated kinds meets) (constructed?_relocated made) swapped.symm
      (Fits.relocate fits)

private theorem ofField?_relocate (opcode : Opcode) (type : FieldType) :
    ofField? opcode type = (ofField? opcode type).map (relocate rename) := by
  cases opcode <;> simp [ofField?, relocate, Effect.constant, Effect.unary]

private theorem ofMethod_relocate (opcode : Opcode) (name : String) (type : MethodType) :
    (ofMethod opcode name type).relocate rename = ofMethod opcode name type := by
  have result : (type.result.map Value.ofType).map (Value.relocate rename) = type.result.map Value.ofType := by
    cases type.result <;> simp
  rcases ofMethod_cases opcode name type with ⟨rfl, _⟩ | ⟨_, _, same⟩ | ⟨_, _, same⟩
  · simp only [ofMethod, if_true, relocate, result]
  · rw [same, relocate, result]
  · rw [same, relocate, result]

/-- What an instruction makes carries its index, and nothing else does. -/
theorem of?_relocate (rename : Nat → Nat) (index : Nat) (instruction : Instruction) :
    of? (rename index) instruction = (of? index instruction).map (relocate rename) := by
  cases instruction with
  | simple opcode => cases opcode <;> rfl
  | int opcode operand =>
    simp only [of?, ofInt?]
    split
    · rfl
    · rfl
    · rw [Option.map_map]
      rfl
    · rfl
  | «variable» opcode slot => cases opcode <;> rfl
  | jump opcode label => cases opcode <;> rfl
  | constant value => cases value <;> rfl
  | type opcode name => cases opcode <;> rfl
  | field opcode owner name descriptor =>
    simp only [of?]
    cases (FieldType.parse descriptor).toOption with
    | none => rfl
    | some type => exact ofField?_relocate opcode type
  | method opcode owner name descriptor onInterface =>
    simp only [of?, Option.map_map]
    congr 1
    funext type
    exact (ofMethod_relocate opcode name type).symm
  | callSite name descriptor =>
    simp only [of?, Option.map_map]
    congr 1
    funext type
    exact (ofMethod_relocate .invokeStatic "" type).symm
  | label | line | increment | tableSwitch | lookupSwitch | newArrays => rfl

end Action

/-- An instruction works alike on frames whose sites are renamed, if it is renamed itself. -/
theorem transfer_relocate {around : Surroundings} {index : Nat} {instruction : Instruction}
    {before after : Frame} (different : Function.Injective rename)
    (done : (transfer around index instruction).run before = .ok ((), after)) :
    (transfer around (rename index) instruction).run (before.relocate rename) =
      .ok ((), after.relocate rename) := by
  obtain ⟨action, known, performs⟩ := (Action.transfer_follows index instruction _ _).mp done
  obtain ⟨rule, ruled, _⟩ := Action.of?_has known
  refine (Action.transfer_follows (rename index) instruction _ _).mpr ⟨_, ?_, performs.relocate different ruled⟩
  rw [Action.of?_relocate, known]
  rfl

end Bytecode.Verify
