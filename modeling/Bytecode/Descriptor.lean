/-!
Field and method descriptors: the types they denote, their text, and the readers that accept
exactly the well-formed ones.
-/

namespace Bytecode

/-- The type of a field, a parameter or a returned value. -/
inductive FieldType where
  | boolean
  | byte
  | char
  | short
  | int
  | float
  | long
  | double
  /-- A class by internal name, such as `java/lang/String`. -/
  | object (name : String)
  | array (element : FieldType)
  deriving DecidableEq, Repr

inductive DescriptorError where
  | invalidType (text : String)
  | invalidMethod (text : String)
  | invalidName (text : String)
  deriving DecidableEq, Repr

def DescriptorError.message : DescriptorError → String
  | invalidType text => s!"Invalid type descriptor: {text}"
  | invalidMethod text => s!"Invalid method descriptor: {text}"
  | invalidName text => s!"Invalid internal name: {text}"

/-- Two separators stand next to each other. -/
def hasEmptySegment : List Char → Bool
  | '/' :: '/' :: _ => true
  | _ :: rest => hasEmptySegment rest
  | [] => false

/-- Characters with a meaning of their own in descriptors and signatures, and the dot. -/
def reservedChars : List Char := ['.', ';', '[', '<', '>']

/-- Internal names are non-empty segments joined by single slashes, free of reserved
characters. -/
def isInternalName (name : List Char) : Bool :=
  !name.isEmpty && name.head? != some '/' && name.getLast? != some '/' &&
    !hasEmptySegment name && name.all fun c => !reservedChars.contains c

/-- The descriptor of a class or array named as an operand; array descriptors stand for
themselves. -/
def nameDescriptor (name : String) : String :=
  if name.toList.head? == some '[' then name else s!"L{name};"

namespace FieldType

/-- Local and stack slots that a value of the type takes. -/
def size : FieldType → Nat
  | long | double => 2
  | _ => 1

def isReference : FieldType → Bool
  | object _ | array _ => true
  | _ => false

def dimensions : FieldType → Nat
  | array element => element.dimensions + 1
  | _ => 0

/-- Arrays have at most this many dimensions. -/
def maxDimensions : Nat := 255

def descriptor : FieldType → String
  | boolean => "Z"
  | byte => "B"
  | char => "C"
  | short => "S"
  | int => "I"
  | float => "F"
  | long => "J"
  | double => "D"
  | object name => s!"L{name};"
  | array element => "[" ++ element.descriptor

/-- The type at the start of a text, of any number of dimensions, and the text after it. -/
def readAny : List Char → Option (FieldType × List Char)
  | 'Z' :: rest => some (boolean, rest)
  | 'B' :: rest => some (byte, rest)
  | 'C' :: rest => some (char, rest)
  | 'S' :: rest => some (short, rest)
  | 'I' :: rest => some (int, rest)
  | 'F' :: rest => some (float, rest)
  | 'J' :: rest => some (long, rest)
  | 'D' :: rest => some (double, rest)
  | 'L' :: rest =>
    let name := rest.takeWhile (· != ';')
    match rest.dropWhile (· != ';') with
    | [] => none
    | _ :: after => if isInternalName name then some (object (String.ofList name), after) else none
  | '[' :: rest => (readAny rest).map fun (element, after) => (array element, after)
  | _ => none

/-- The type at the start of a text, and the text after it. -/
def read (text : List Char) : Option (FieldType × List Char) :=
  (readAny text).filter fun (type, _) => type.dimensions ≤ maxDimensions

/-- A descriptor is one type and nothing after it. -/
def parse? (text : List Char) : Option FieldType :=
  match read text with
  | some (type, []) => some type
  | _ => none

def parse (text : String) : Except DescriptorError FieldType :=
  match parse? text.toList with
  | some type => .ok type
  | none => .error (.invalidType text)

/-- The operand of an instruction on types: a class by internal name, or an array by descriptor. -/
def ofOperand (text : String) : Except DescriptorError FieldType :=
  if text.toList.head? == some '[' then parse text
  else if isInternalName text.toList then .ok (object text)
  else .error (.invalidName text)

theorem readAny_shorter {text rest : List Char} {type : FieldType}
    (found : readAny text = some (type, rest)) : rest.length < text.length := by
  fun_induction readAny text generalizing type rest with
  | case9 | case11 => simp at found
  | case10 tail name head after split =>
    have : (tail.dropWhile (· != ';')).length ≤ tail.length :=
      (List.dropWhile_sublist _).length_le
    simp_all
    omega
  | case12 tail step =>
    obtain ⟨⟨element, after⟩, inner, same⟩ := Option.map_eq_some_iff.mp found
    cases same
    have := step inner
    simp
    omega
  | case13 => simp at found
  | _ => simp_all

theorem read_shorter {text rest : List Char} {type : FieldType}
    (found : read text = some (type, rest)) : rest.length < text.length :=
  readAny_shorter (Option.filter_eq_some_iff.mp found).1

end FieldType

/-- The parameters and the result of a method; no result stands for `void`. -/
structure MethodType where
  parameters : List FieldType
  result : Option FieldType
  deriving DecidableEq, Repr

namespace MethodType

def resultDescriptor : Option FieldType → String
  | some type => type.descriptor
  | none => "V"

def descriptor (type : MethodType) : String :=
  "(" ++ String.join (type.parameters.map FieldType.descriptor) ++ ")" ++
    resultDescriptor type.result

/-- The types up to the closing parenthesis, and the text after it. -/
def readParameters (text : List Char) : Option (List FieldType × List Char) :=
  match text with
  | [] => none
  | ')' :: rest => some ([], rest)
  | text =>
    match found : FieldType.read text with
    | none => none
    | some (type, rest) =>
      have := FieldType.read_shorter found
      (readParameters rest).map fun (types, after) => (type :: types, after)
termination_by text.length

def parseResult? : List Char → Option (Option FieldType)
  | ['V'] => some none
  | text => (FieldType.parse? text).map some

def parse? : List Char → Option MethodType
  | '(' :: text => do
    let (parameters, rest) ← readParameters text
    let result ← parseResult? rest
    pure ⟨parameters, result⟩
  | _ => none

def parse (text : String) : Except DescriptorError MethodType :=
  match parse? text.toList with
  | some type => .ok type
  | none => .error (.invalidMethod text)

end MethodType
end Bytecode
