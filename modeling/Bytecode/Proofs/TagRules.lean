import Bytecode.Proofs.Monotonicity
import Bytecode.Proofs.TagMachine

/-! What the verifier takes an instruction to do, read as kinds of values, is what the table
of the machine has for it. The two tables are compared opcode by opcode. -/

namespace Bytecode.Verify
open List

namespace Value

def tag? : Value → Option Tag
  | empty => none
  | int => some .int
  | float => some .float
  | long => some .long
  | double => some .double
  | null | reference _ | uninitializedThis _ | uninitialized .. => some .reference
  | returnAddress => some .returnAddress

theorem Below.tag?_eq {lower upper : Value} (below : lower.Below upper) : lower.tag? = upper.tag? := by
  rcases below_iff.mp below with rfl | ⟨rfl, _, rfl⟩ | ⟨⟨_, rfl⟩, rfl⟩ <;> rfl

theorem tag?_of_isReference {value : Value} (object : value.isReference = true) :
    value.tag? = some .reference := by
  cases value with
  | null | reference | uninitializedThis | uninitialized => rfl
  | _ => cases object

theorem size_of_tag? {value : Value} {tag : Tag} (known : value.tag? = some tag) :
    value.size = tag.slots := by
  cases value <;> cases known <;> rfl

theorem isWide_of_tag? {value : Value} {tag : Tag} (known : value.tag? = some tag) :
    value.isWide = tag.isWide := by
  cases value <;> cases known <;> rfl

theorem tag?_ofType (type : FieldType) : (ofType type).tag? = some (Tag.ofType type) := by
  cases type <;> rfl

end Value

namespace Demand

/-- No instruction asks for one reference rather than another. -/
def tag? : Demand → Option Tag
  | exactly value => if value.isReference then none else value.tag?
  | reference => some .reference

/-- What the use of a local as a value of some kind asks for. -/
def ofKind : Value → Demand
  | .reference _ => reference
  | kind => exactly kind

theorem tag?_ofType (type : FieldType) : (ofType type).tag? = some (Tag.ofType type) := by
  cases type <;> rfl

@[simp] theorem tag?_reference : reference.tag? = some .reference := rfl

@[simp] theorem tag?_int : Effect.int.tag? = some .int := rfl

theorem meets_ofKind {value kind : Value} : (ofKind kind).Meets value ↔ value.Serves kind := by
  cases kind <;> simp [ofKind, Meets, accepts, Value.Serves]

theorem Meets.tag? {demand : Demand} {value : Value} (meets : demand.Meets value) {tag : Tag}
    (known : demand.tag? = some tag) : value.tag? = some tag := by
  cases demand with
  | exactly wanted =>
    obtain rfl : value = wanted := eq_of_beq meets
    simp only [Demand.tag?] at known
    split at known
    · cases known
    · exact known
  | reference =>
    cases known
    exact Value.tag?_of_isReference meets

theorem tag?_of_mem {demands : List Demand} {tags : List Tag} {demand : Demand}
    (known : demands.mapM Demand.tag? = some tags) (listed : demand ∈ demands) :
    ∃ tag ∈ tags, demand.tag? = some tag := by
  induction demands generalizing tags with
  | nil => cases listed
  | cons first rest ih =>
    simp only [List.mapM_cons, Option.pure_def, Option.bind_eq_bind, Option.bind_eq_some_iff] at known
    obtain ⟨tag, here, others, there, same⟩ := known
    cases same
    rcases List.mem_cons.mp listed with rfl | later
    · exact ⟨tag, List.mem_cons_self, here⟩
    · obtain ⟨other, among, wanted⟩ := ih there later
      exact ⟨other, List.mem_cons_of_mem _ among, wanted⟩

end Demand

namespace Action

/-- What the machine of tags does for an action, as far as the action has tags. -/
def rule? : Action → Option Rule
  | effect fixed => do
    let operands ← fixed.pops.mapM Demand.tag?
    let results ← fixed.result.toList.mapM Value.tag?
    return .exchange ⟨operands, results⟩
  | shuffle opcode => some (.shuffle opcode)
  | element => some (.exchange ⟨[.int, .reference], [.reference]⟩)
  | load slot kind => (Demand.ofKind kind).tag?.map (.load slot)
  | consult slot kind => (Demand.ofKind kind).tag?.map (.consult slot)
  | store slot kinds => (kinds.mapM Demand.tag?).map (.store slot)
  | leave none => some (.leave none)
  | leave (some returned) => returned.tag?.map fun tag => .leave (some tag)
  | receive arguments result | construct arguments result => do
    let operands ← arguments.mapM Demand.tag?
    let results ← result.toList.mapM Value.tag?
    return .exchange ⟨operands ++ [.reference], results⟩

/-- The machine has the rule of the action. -/
def Has (rule : Option Rule) (action : Action) : Prop :=
  ∃ found, action.rule? = some found ∧ rule = some found

theorem ofSimple_has (opcode : Opcode) : Has (some (Rule.ofSimple opcode)) (ofSimple opcode) := by
  cases opcode <;> exact ⟨_, rfl, rfl⟩

theorem ofVariable?_has {opcode : Opcode} {slot : Nat} {action : Action}
    (known : ofVariable? opcode slot = some action) : Has (Rule.ofVariable? slot opcode) action := by
  cases opcode <;> cases known <;> exact ⟨_, rfl, rfl⟩

theorem ofJump?_has {opcode : Opcode} {fixed : Effect} (known : Effect.ofJump? opcode = some fixed) :
    Has ((Signature.ofJump? opcode).map .exchange) (effect fixed) := by
  cases opcode <;> cases known <;> exact ⟨_, rfl, rfl⟩

theorem ofType?_has {site : Nat} {opcode : Opcode} {name : String} {action : Action}
    (known : ofType? site opcode name = some action) :
    Has ((Signature.ofType? opcode).map .exchange) action := by
  cases opcode <;> cases known <;> exact ⟨_, rfl, rfl⟩

theorem ofInt?_has {opcode : Opcode} {operand : Int32} {action : Action}
    (known : ofInt? opcode operand = some action) : Has (Rule.ofInt? opcode) action := by
  unfold ofInt? at known
  split at known
  · cases known
    exact ⟨_, rfl, rfl⟩
  · cases known
    exact ⟨_, rfl, rfl⟩
  · obtain ⟨descriptor, _, rfl⟩ := Option.map_eq_some_iff.mp known
    exact ⟨_, rfl, rfl⟩
  · cases known

theorem ofField?_has {opcode : Opcode} {type : FieldType} {action : Action}
    (known : ofField? opcode type = some action) :
    Has ((Signature.ofField? type opcode).map .exchange) action := by
  unfold ofField? at known
  split at known
  case h_5 => cases known
  all_goals
    cases known
    simp [Has, rule?, Effect.constant, Effect.unary, Value.tag?_ofType, Demand.tag?_ofType,
      Signature.ofField?]

private theorem mapM_map {α β : Type} {f : α → β} {tag? : β → Option Tag} {tag : α → Tag}
    (known : ∀ input, tag? (f input) = some (tag input)) (inputs : List α) :
    (inputs.map f).mapM tag? = some (inputs.map tag) := by
  induction inputs with
  | nil => rfl
  | cons input rest ih => simp [List.mapM_cons, known, ih]

private theorem mapM_result (result : Option FieldType) :
    (result.map Value.ofType).toList.mapM Value.tag? = some (result.map Tag.ofType).toList := by
  cases result with
  | none => rfl
  | some type => simp [Value.tag?_ofType]

theorem ofMethod_has (opcode : Opcode) (name : String) (type : MethodType) :
    Has (some (.exchange (.ofCall type (opcode == .invokeStatic)))) (ofMethod opcode name type) := by
  have arguments : (type.parameters.map Demand.ofType).reverse.mapM Demand.tag? =
      some (type.parameters.map Tag.ofType).reverse := by
    rw [← List.map_reverse, mapM_map Demand.tag?_ofType, List.map_reverse]
  refine ⟨_, ?_, rfl⟩
  unfold ofMethod
  by_cases static : opcode = .invokeStatic
  · simp [static, rule?, arguments, mapM_result, Signature.ofCall]
  · simp only [static, if_false]
    split <;> simp [static, rule?, arguments, mapM_result, Signature.ofCall]

/-- What the verifier takes an instruction to do is what the machine does for it. -/
theorem of?_has {index : Nat} {instruction : Instruction} {action : Action}
    (known : of? index instruction = some action) : Has (Rule.of? instruction) action := by
  cases instruction with
  | label | line | tableSwitch | lookupSwitch | increment =>
    cases known
    exact ⟨_, rfl, rfl⟩
  | simple opcode =>
    cases known
    exact ofSimple_has opcode
  | int opcode operand => exact ofInt?_has known
  | «variable» opcode slot => exact ofVariable?_has known
  | jump opcode label =>
    obtain ⟨fixed, jumps, rfl⟩ := Option.map_eq_some_iff.mp known
    exact ofJump?_has jumps
  | constant value =>
    cases known
    cases value <;> exact ⟨_, rfl, rfl⟩
  | type opcode name => exact ofType?_has known
  | field opcode owner name descriptor =>
    simp only [of?, Option.bind_eq_some_iff] at known
    obtain ⟨type, parsed, known⟩ := known
    simp only [Rule.of?, parsed, Option.bind_some]
    exact ofField?_has known
  | method opcode owner name descriptor =>
    obtain ⟨type, parsed, rfl⟩ := Option.map_eq_some_iff.mp known
    simp only [Rule.of?, parsed, Option.map_some]
    exact ofMethod_has opcode name type
  | callSite name descriptor =>
    obtain ⟨type, parsed, rfl⟩ := Option.map_eq_some_iff.mp known
    simp only [Rule.of?, parsed, Option.map_some]
    exact ofMethod_has .invokeStatic "" type
  | newArrays descriptor dimensions =>
    cases known
    have counts (count : Nat) : (List.replicate count Effect.int).mapM Demand.tag? =
        some (List.replicate count .int) := by
      induction count with
      | zero => rfl
      | succ count ih => simp [List.replicate_succ, List.mapM_cons, ih]
    refine ⟨_, ?_, rfl⟩
    simp [rule?, counts, Value.tag?]

end Action

end Bytecode.Verify
