import Bytecode.Descriptor
import Mathlib.Data.List.Infix
import Mathlib.Data.List.TakeWhile

/-! The texts that denote types. The readers accept exactly what the grammar of descriptors allows, and
what they read is the one type with that descriptor, so that texts and types determine each other. -/

namespace Bytecode

/-- What may stand between `L` and `;`. -/
structure IsClassName (name : List Char) : Prop where
  nonempty : name ≠ []
  leading : name.head? ≠ some '/'
  trailing : name.getLast? ≠ some '/'
  doubled : ¬ ['/', '/'] <:+: name
  plain : ∀ c ∈ name, c ∉ ['.', ';', '[', '<', '>']

/-- The descriptor of a primitive type or a class. -/
inductive IsScalarDescriptor : List Char → Prop where
  | letter {c} (listed : c ∈ ['Z', 'B', 'C', 'S', 'I', 'F', 'J', 'D']) : IsScalarDescriptor [c]
  | named {name} (valid : IsClassName name) : IsScalarDescriptor ('L' :: (name ++ [';']))

inductive IsFieldDescriptor : List Char → Prop where
  | scalar {text} (scalar : IsScalarDescriptor text) : IsFieldDescriptor text
  | array {dimensions element} (least : 1 ≤ dimensions) (most : dimensions ≤ 255)
    (scalar : IsScalarDescriptor element) : IsFieldDescriptor (List.replicate dimensions '[' ++ element)

/-- The parts of the descriptor of a method. -/
structure IsMethodDescriptor (text : List Char) (parameters : List (List Char)) (result : List Char) : Prop where
  whole : text = '(' :: (parameters.flatten ++ ')' :: result)
  parameters : ∀ parameter ∈ parameters, IsFieldDescriptor parameter
  result : result = ['V'] ∨ IsFieldDescriptor result

theorem hasEmptySegment_iff {name : List Char} : hasEmptySegment name = true ↔ ['/', '/'] <:+: name := by
  fun_induction hasEmptySegment name with
  | case1 rest => exact ⟨fun _ => ⟨[], rest, rfl⟩, fun _ => rfl⟩
  | case2 c rest other ih =>
    rw [ih, List.infix_cons_iff]
    refine ⟨.inr, ?_⟩
    rintro (⟨after, same⟩ | within)
    · cases same
      exact (other after rfl rfl).elim
    · exact within
  | case3 => simp

theorem isInternalName_iff {name : List Char} : isInternalName name = true ↔ IsClassName name := by
  have segments : hasEmptySegment name = false ↔ ¬ ['/', '/'] <:+: name := by
    rw [← hasEmptySegment_iff, Bool.not_eq_true]
  simp only [isInternalName, Bool.and_eq_true, Bool.not_eq_true', List.isEmpty_eq_false_iff, bne_iff_ne,
    segments, List.all_eq_true, List.contains_eq_mem, decide_eq_false_iff_not]
  exact ⟨fun ⟨⟨⟨⟨nonempty, leading⟩, trailing⟩, doubled⟩, plain⟩ => ⟨nonempty, leading, trailing, doubled, plain⟩,
    fun ⟨nonempty, leading, trailing, doubled, plain⟩ => ⟨⟨⟨⟨nonempty, leading⟩, trailing⟩, doubled⟩, plain⟩⟩

namespace FieldType

/-- The class that a type is made of has a name that can be written. -/
def HasName : FieldType → Prop
  | object name => IsClassName name.toList
  | array element => element.HasName
  | _ => True

/-- Types that have a descriptor. -/
structure WellFormed (type : FieldType) : Prop where
  named : type.HasName
  bounded : type.dimensions ≤ 255

theorem descriptor_object (name : String) :
    (object name).descriptor.toList = 'L' :: (name.toList ++ [';']) := by
  simp [descriptor, ToString.toString]

theorem descriptor_array (element : FieldType) :
    (array element).descriptor.toList = '[' :: element.descriptor.toList := by
  simp [descriptor]

/-- A name is read up to the semicolon, which it does not hold. -/
theorem readAny_class {name : List Char} (valid : IsClassName name) (rest : List Char) :
    readAny ('L' :: (name ++ ';' :: rest)) = some (object (String.ofList name), rest) := by
  have inside : ∀ c ∈ name, (c != ';') = true := by
    intro c listed
    rw [bne_iff_ne]
    rintro rfl
    exact valid.plain _ listed (by decide)
  rw [readAny]
  simp only [List.takeWhile_append_of_pos inside, List.dropWhile_append_of_pos inside]
  simp [isInternalName_iff.mpr valid]

theorem readAny_descriptor {type : FieldType} (named : type.HasName) (rest : List Char) :
    readAny (type.descriptor.toList ++ rest) = some (type, rest) := by
  induction type with
  | object name =>
    rw [descriptor_object, List.cons_append, List.append_assoc, List.singleton_append, readAny_class named,
      String.ofList_toList]
  | array element ih =>
    have inner : readAny (element.descriptor.toList ++ rest) = some (element, rest) := ih named
    rw [descriptor_array, List.cons_append, readAny, inner, Option.map_some]
  | _ => rfl

theorem readAny_some {text rest : List Char} {type : FieldType} (found : readAny text = some (type, rest)) :
    type.HasName ∧ text = type.descriptor.toList ++ rest := by
  fun_induction readAny text generalizing type rest with
  | case9 | case11 | case13 => cases found
  | case10 tail name head after split =>
    cases found
    have stop : head = ';' := by
      have refused := List.head?_dropWhile_not (· != ';') tail
      simpa [split] using refused
    have named : IsClassName (String.ofList name).toList := by
      rw [String.toList_ofList]
      exact isInternalName_iff.mp ‹_›
    refine ⟨named, ?_⟩
    calc 'L' :: tail = 'L' :: (name ++ ';' :: after) := by
          rw [← stop, ← split, List.takeWhile_append_dropWhile]
      _ = (object (String.ofList name)).descriptor.toList ++ after := by
          simp [descriptor_object]
  | case12 tail ih =>
    obtain ⟨⟨element, after⟩, inner, same⟩ := Option.map_eq_some_iff.mp found
    cases same
    obtain ⟨named, split⟩ := ih inner
    exact ⟨named, by rw [descriptor_array, List.cons_append, split]⟩
  | _ =>
    cases found
    exact ⟨trivial, rfl⟩

theorem read_iff {text rest : List Char} {type : FieldType} :
    read text = some (type, rest) ↔ type.WellFormed ∧ text = type.descriptor.toList ++ rest := by
  rw [read, Option.filter_eq_some_iff, decide_eq_true_iff]
  constructor
  · rintro ⟨found, bounded⟩
    obtain ⟨named, split⟩ := readAny_some found
    exact ⟨⟨named, bounded⟩, split⟩
  · rintro ⟨⟨named, bounded⟩, rfl⟩
    exact ⟨readAny_descriptor named rest, bounded⟩

theorem parse?_iff {text : List Char} {type : FieldType} :
    parse? text = some type ↔ type.WellFormed ∧ text = type.descriptor.toList := by
  have whole : parse? text = some type ↔ read text = some (type, []) := by
    unfold parse?
    split <;> simp_all
  rw [whole, read_iff, List.append_nil]

theorem parse_iff {text : String} {type : FieldType} :
    parse text = .ok type ↔ type.WellFormed ∧ text = type.descriptor := by
  have found : parse text = .ok type ↔ parse? text.toList = some type := by
    unfold parse
    split <;> simp_all
  rw [found, parse?_iff, String.toList_inj]

/-- Brackets in front of a scalar descriptor write a type of so many dimensions. -/
theorem exists_of_scalar {element : List Char} (scalar : IsScalarDescriptor element) (count : Nat) :
    ∃ type : FieldType, type.HasName ∧ type.dimensions = count ∧
      List.replicate count '[' ++ element = type.descriptor.toList := by
  induction count with
  | zero =>
    cases scalar with
    | letter listed =>
      simp only [List.mem_cons, List.not_mem_nil, or_false] at listed
      rcases listed with rfl | rfl | rfl | rfl | rfl | rfl | rfl | rfl
      exacts [⟨boolean, trivial, rfl, rfl⟩, ⟨byte, trivial, rfl, rfl⟩, ⟨char, trivial, rfl, rfl⟩,
        ⟨short, trivial, rfl, rfl⟩, ⟨int, trivial, rfl, rfl⟩, ⟨float, trivial, rfl, rfl⟩,
        ⟨long, trivial, rfl, rfl⟩, ⟨double, trivial, rfl, rfl⟩]
    | @named name valid =>
      refine ⟨object (String.ofList name), ?_, rfl, ?_⟩
      · rwa [HasName, String.toList_ofList]
      · rw [descriptor_object, String.toList_ofList]
        rfl
  | succ count ih =>
    obtain ⟨type, named, rfl, same⟩ := ih
    refine ⟨array type, named, rfl, ?_⟩
    rw [descriptor_array, ← same, List.replicate_succ, List.cons_append]

theorem descriptor_scalar {type : FieldType} (named : type.HasName) :
    ∃ element, IsScalarDescriptor element ∧
      type.descriptor.toList = List.replicate type.dimensions '[' ++ element := by
  induction type with
  | object name => exact ⟨_, .named named, descriptor_object name⟩
  | array inner ih =>
    obtain ⟨element, scalar, same⟩ := ih named
    refine ⟨element, scalar, ?_⟩
    rw [descriptor_array, same, dimensions, List.replicate_succ, List.cons_append]
  | _ => exact ⟨_, .letter (by decide), rfl⟩

/-- The grammar describes the texts of the types that have one. -/
theorem isFieldDescriptor_iff {text : List Char} :
    IsFieldDescriptor text ↔ ∃ type : FieldType, type.WellFormed ∧ text = type.descriptor.toList := by
  constructor
  · intro described
    cases described with
    | scalar scalar =>
      obtain ⟨type, named, flat, same⟩ := exists_of_scalar scalar 0
      exact ⟨type, ⟨named, by omega⟩, same⟩
    | array _ most scalar =>
      obtain ⟨type, named, deep, same⟩ := exists_of_scalar scalar _
      exact ⟨type, ⟨named, deep ▸ most⟩, same⟩
  · rintro ⟨type, ⟨named, bounded⟩, rfl⟩
    obtain ⟨element, scalar, same⟩ := descriptor_scalar named
    rw [same]
    by_cases flat : type.dimensions = 0
    · rw [flat]
      exact .scalar scalar
    · exact .array (by omega) bounded scalar

/-- No type is written with a closing parenthesis first. -/
theorem descriptor_starts {type : FieldType} : ∃ first rest, type.descriptor.toList = first :: rest ∧ first ≠ ')' := by
  cases type with
  | object name => exact ⟨_, _, descriptor_object name, by decide⟩
  | array element => exact ⟨_, _, descriptor_array element, by decide⟩
  | _ => exact ⟨_, _, rfl, by decide⟩

end FieldType

namespace MethodType
open FieldType

/-- Method types that have a descriptor. -/
structure WellFormed (type : MethodType) : Prop where
  parameters : ∀ parameter ∈ type.parameters, parameter.WellFormed
  result : ∀ result ∈ type.result, result.WellFormed

theorem readParameters_some {text rest : List Char} {types : List FieldType}
    (found : readParameters text = some (types, rest)) :
    (∀ type ∈ types, type.WellFormed) ∧ text = types.flatMap (·.descriptor.toList) ++ ')' :: rest := by
  fun_induction readParameters text generalizing types rest with
  | case1 => cases found
  | case2 tail =>
    cases found
    exact ⟨by simp, rfl⟩
  | case3 => cases found
  | case4 text _ _ type after first _ ih =>
    obtain ⟨⟨others, stop⟩, more, same⟩ := Option.map_eq_some_iff.mp found
    cases same
    obtain ⟨formed, split⟩ := read_iff.mp first
    obtain ⟨rest_formed, rest_split⟩ := ih more
    refine ⟨List.forall_mem_cons.mpr ⟨formed, rest_formed⟩, ?_⟩
    rw [split, rest_split, List.flatMap_cons, List.append_assoc]

/-- A text that starts with a type, and so with no closing parenthesis. -/
theorem readParameters_cons {type : FieldType} (formed : type.WellFormed) (rest : List Char) :
    readParameters (type.descriptor.toList ++ rest) =
      (readParameters rest).map fun read => (type :: read.1, read.2) := by
  have found : FieldType.read (type.descriptor.toList ++ rest) = some (type, rest) := read_iff.mpr ⟨formed, rfl⟩
  obtain ⟨first, others, same, inside⟩ := type.descriptor_starts
  have starts : type.descriptor.toList ++ rest = first :: (others ++ rest) := by
    rw [same, List.cons_append]
  generalize type.descriptor.toList ++ rest = text at found starts ⊢
  fun_cases readParameters text with
  | case1 => cases starts
  | case2 => exact absurd (List.cons.inj starts).1.symm inside
  | case3 _ _ _ refused => cases found.symm.trans refused
  | case4 _ _ _ _ _ read =>
    cases found.symm.trans read
    rfl

theorem readParameters_descriptors {types : List FieldType} (formed : ∀ type ∈ types, type.WellFormed)
    (rest : List Char) :
    readParameters (types.flatMap (·.descriptor.toList) ++ ')' :: rest) = some (types, rest) := by
  induction types with
  | nil => simp [readParameters]
  | cons type types ih =>
    obtain ⟨first, others⟩ := List.forall_mem_cons.mp formed
    rw [List.flatMap_cons, List.append_assoc, readParameters_cons first, ih others, Option.map_some]

theorem readParameters_iff {text rest : List Char} {types : List FieldType} :
    readParameters text = some (types, rest) ↔
      (∀ type ∈ types, type.WellFormed) ∧ text = types.flatMap (·.descriptor.toList) ++ ')' :: rest := by
  refine ⟨readParameters_some, ?_⟩
  rintro ⟨formed, rfl⟩
  exact readParameters_descriptors formed rest

theorem parseResult?_iff {text : List Char} {result : Option FieldType} :
    parseResult? text = some result ↔
      (∀ type ∈ result, type.WellFormed) ∧ text = (resultDescriptor result).toList := by
  cases result with
  | none =>
    unfold parseResult?
    split <;> simp_all [resultDescriptor]
  | some type =>
    have typed : parseResult? text = some (some type) ↔ FieldType.parse? text = some type := by
      unfold parseResult?
      split
      next =>
        have refused : FieldType.parse? ['V'] = none := rfl
        simp [refused]
      next => simp
    simp [typed, parse?_iff, resultDescriptor]

theorem descriptor_toList (type : MethodType) : type.descriptor.toList =
    '(' :: (type.parameters.flatMap (·.descriptor.toList) ++ ')' :: (resultDescriptor type.result).toList) := by
  simp [descriptor, String.toList_join, List.flatMap_map]

theorem parse?_iff {text : List Char} {type : MethodType} :
    parse? text = some type ↔ type.WellFormed ∧ text = type.descriptor.toList := by
  rw [descriptor_toList]
  constructor
  · intro found
    unfold parse? at found
    split at found
    next text =>
      obtain ⟨⟨parameters, rest⟩, read, found⟩ := Option.bind_eq_some_iff.mp found
      obtain ⟨result, last, same⟩ := Option.bind_eq_some_iff.mp found
      cases same
      obtain ⟨formed, rfl⟩ := readParameters_iff.mp read
      obtain ⟨result_formed, rfl⟩ := parseResult?_iff.mp last
      exact ⟨⟨formed, result_formed⟩, rfl⟩
    next => cases found
  · rintro ⟨⟨formed, result_formed⟩, rfl⟩
    have read := readParameters_descriptors formed (resultDescriptor type.result).toList
    have last := parseResult?_iff.mpr ⟨result_formed, rfl⟩
    simp [parse?, read, last]

theorem parse_iff {text : String} {type : MethodType} :
    parse text = .ok type ↔ type.WellFormed ∧ text = type.descriptor := by
  have found : parse text = .ok type ↔ parse? text.toList = some type := by
    unfold parse
    split <;> simp_all
  rw [found, parse?_iff, String.toList_inj]

/-- The parts that the descriptor of a method type is made of. -/
theorem WellFormed.isMethodDescriptor {type : MethodType} (formed : type.WellFormed) :
    IsMethodDescriptor type.descriptor.toList (type.parameters.map (·.descriptor.toList))
      (resultDescriptor type.result).toList := by
  refine ⟨by rw [descriptor_toList, List.flatMap_def], ?_, ?_⟩
  · intro text listed
    obtain ⟨parameter, among, rfl⟩ := List.mem_map.mp listed
    exact isFieldDescriptor_iff.mpr ⟨parameter, formed.parameters parameter among, rfl⟩
  · cases given : type.result with
    | none => exact .inl rfl
    | some result => exact .inr (isFieldDescriptor_iff.mpr ⟨result, formed.result result given, rfl⟩)

/-- The types that the parts of a method descriptor denote. -/
theorem exists_of_isMethodDescriptor {text result : List Char} {parameters : List (List Char)}
    (parts : IsMethodDescriptor text parameters result) :
    ∃ type : MethodType, type.WellFormed ∧ type.descriptor.toList = text ∧
      type.parameters.map (·.descriptor.toList) = parameters ∧ (resultDescriptor type.result).toList = result := by
  have denoted : ∃ types : List FieldType, (∀ type ∈ types, type.WellFormed) ∧
      types.map (·.descriptor.toList) = parameters := by
    have each := parts.parameters
    clear parts
    induction parameters with
    | nil => exact ⟨[], by simp, rfl⟩
    | cons parameter rest ih =>
      obtain ⟨first, others⟩ := List.forall_mem_cons.mp each
      obtain ⟨type, formed, rfl⟩ := isFieldDescriptor_iff.mp first
      obtain ⟨types, all, rfl⟩ := ih others
      exact ⟨type :: types, List.forall_mem_cons.mpr ⟨formed, all⟩, rfl⟩
  have returned : ∃ given : Option FieldType, (∀ type ∈ given, type.WellFormed) ∧
      (resultDescriptor given).toList = result := by
    rcases parts.result with rfl | described
    · exact ⟨none, by simp, rfl⟩
    · obtain ⟨type, formed, rfl⟩ := isFieldDescriptor_iff.mp described
      exact ⟨some type, by simpa using formed, rfl⟩
  obtain ⟨types, all, rfl⟩ := denoted
  obtain ⟨given, formed, rfl⟩ := returned
  refine ⟨⟨types, given⟩, ⟨all, formed⟩, ?_, rfl, rfl⟩
  rw [parts.whole, descriptor_toList, List.flatMap_def]

end MethodType

namespace FieldType

/-- Only the class itself is written so, whether its name is valid or not. -/
theorem descriptor_eq_object {name : String} {type : FieldType} :
    type.descriptor = (object name).descriptor ↔ type = object name := by
  refine ⟨fun same => ?_, fun same => same ▸ rfl⟩
  rw [← String.toList_inj, descriptor_object] at same
  cases type with
  | object other =>
    rw [descriptor_object] at same
    rw [String.toList_inj.mp (List.append_cancel_right (List.cons.inj same).2)]
  | array element =>
    rw [descriptor_array] at same
    cases (List.cons.inj same).1
  | _ => cases (List.cons.inj same).1

/-- A class is named as an operand by what stands between `L` and `;`, an array by its descriptor. -/
theorem ofOperand_iff {name : String} {type : FieldType} :
    ofOperand name = .ok type ↔ parse (nameDescriptor name) = .ok type := by
  unfold ofOperand nameDescriptor
  split
  next => exact Iff.rfl
  next =>
    have written : s!"L{name};" = (object name).descriptor := rfl
    rw [written, parse_iff, eq_comm (a := (object name).descriptor), descriptor_eq_object]
    split
    next valid =>
      have formed : (object name).WellFormed := ⟨isInternalName_iff.mp valid, by simp [dimensions]⟩
      constructor
      · rintro ⟨⟩
        exact ⟨formed, rfl⟩
      · rintro ⟨_, rfl⟩
        rfl
    next invalid =>
      refine ⟨nofun, ?_⟩
      rintro ⟨formed, rfl⟩
      exact (invalid (isInternalName_iff.mpr formed.named)).elim

end FieldType

/-- The readers of descriptors and the descriptors of types are inverse to each other, over the whole of the
grammar and nothing else; an operand is read as the descriptor it is short for. -/
theorem descriptors_exact :
    (∀ text, (∃ type, FieldType.parse text = .ok type) ↔ IsFieldDescriptor text.toList) ∧
      (∀ text type, FieldType.parse text = .ok type → type.WellFormed ∧ type.descriptor = text) ∧
      (∀ type : FieldType, type.WellFormed → FieldType.parse type.descriptor = .ok type) ∧
      (∀ text, (∃ type, MethodType.parse text = .ok type) ↔
        ∃ parameters result, IsMethodDescriptor text.toList parameters result) ∧
      (∀ text type parameters result, MethodType.parse text = .ok type →
        IsMethodDescriptor text.toList parameters result →
          type.parameters.map (·.descriptor.toList) = parameters ∧
            (MethodType.resultDescriptor type.result).toList = result) ∧
      (∀ type : MethodType, type.WellFormed → MethodType.parse type.descriptor = .ok type) ∧
      ∀ name type, FieldType.ofOperand name = .ok type ↔ FieldType.parse (nameDescriptor name) = .ok type := by
  refine ⟨?_, ?_, ?_, ?_, ?_, ?_, fun _ _ => FieldType.ofOperand_iff⟩
  · intro text
    simp only [FieldType.parse_iff, FieldType.isFieldDescriptor_iff, String.toList_inj]
  · intro text type parsed
    obtain ⟨formed, rfl⟩ := FieldType.parse_iff.mp parsed
    exact ⟨formed, rfl⟩
  · exact fun type formed => FieldType.parse_iff.mpr ⟨formed, rfl⟩
  · intro text
    constructor
    · rintro ⟨type, parsed⟩
      obtain ⟨formed, rfl⟩ := MethodType.parse_iff.mp parsed
      exact ⟨_, _, formed.isMethodDescriptor⟩
    · rintro ⟨parameters, result, parts⟩
      obtain ⟨type, formed, same, _⟩ := MethodType.exists_of_isMethodDescriptor parts
      exact ⟨type, MethodType.parse_iff.mpr ⟨formed, (String.toList_inj.mp same).symm⟩⟩
  · intro text type parameters result parsed parts
    -- the parts denote a type with the same descriptor, which is read in one way
    obtain ⟨other, formed, same, listed, last⟩ := MethodType.exists_of_isMethodDescriptor parts
    have also := MethodType.parse_iff.mpr ⟨formed, (String.toList_inj.mp same).symm⟩
    cases parsed.symm.trans also
    exact ⟨listed, last⟩
  · exact fun type formed => MethodType.parse_iff.mpr ⟨formed, rfl⟩

/-- A class name may hold a parenthesis, at which the parameters do not end. -/
theorem descriptors_exact_parenthesis :
    (⟨[.long, .array (.array (.object "a)b"))], some .int⟩ : MethodType).WellFormed ∧
      MethodType.parse "(J[[La)b;)I" = .ok ⟨[.long, .array (.array (.object "a)b"))], some .int⟩ := by
  have named : IsClassName "a)b".toList := isInternalName_iff.mp (by decide)
  have long : FieldType.long.WellFormed := ⟨trivial, by decide⟩
  have array : (FieldType.array (.array (.object "a)b"))).WellFormed := ⟨named, by decide⟩
  have int : FieldType.int.WellFormed := ⟨trivial, by decide⟩
  have formed : (⟨[.long, .array (.array (.object "a)b"))], some .int⟩ : MethodType).WellFormed :=
    ⟨by simp [long, array], by simpa using int⟩
  exact ⟨formed, descriptors_exact.2.2.2.2.2.1 _ formed⟩

end Bytecode
