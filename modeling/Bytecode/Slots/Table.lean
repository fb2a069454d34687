import Std.Data.HashMap
import Std.Data.HashSet
import Bytecode.Alias
import Bytecode.Error
import Bytecode.Text.Unsigned

/-!
Local variables and their slots. Slots are given out once, before any instruction is compiled: the
receiver and the parameters take theirs by the calling convention, slots used by number are set
aside, and names that are stored to take the lowest free slots in the order of their first store.
-/

namespace Bytecode

/-- One past the highest slot of a method. -/
def slotLimit : Nat := 65535

structure Variable where
  name : String
  index : UInt16
  /-- Two for a `long` or `double`, otherwise one. -/
  width : UInt16
  /-- Known for the receiver, parameters and the baseline. -/
  descriptor : Option String
  deriving DecidableEq, Repr

/-- A variable known from an earlier reading of the same method. -/
structure BaselineVariable where
  name : String
  index : UInt16
  descriptor : String
  deriving DecidableEq, Repr

/-- The instructions over which a variable holds values of one type. -/
structure LiveRange where
  first : Nat
  last : Nat
  descriptor : String
  deriving DecidableEq, Repr

structure SlotTable where
  isStatic : Bool
  /-- In the order of registration. -/
  entries : Array Variable
  byName : Std.HashMap String Variable
  occupied : Std.HashSet UInt16
  /-- One past the highest slot in use. -/
  high : UInt16
  /-- Inferred for variables without a descriptor. -/
  live : Std.HashMap String LiveRange

/-- The use of a local by an operation. -/
structure SlotUse where
  line : Nat
  name : String
  width : UInt16
  isStore : Bool
  deriving DecidableEq, Repr

/-- A name that is stored to, with its widest store and the line of its first. -/
structure DeclaredName where
  name : String
  width : UInt16
  line : Nat
  deriving DecidableEq, Repr

/-- A variable of the width at the index ends below the limit. -/
def fitsSlots (index width : UInt16) : Bool := index.toNat + width.toNat ≤ slotLimit

/-- The slot that a local written as a number denotes. -/
def slotNumber? (name : String) : Option UInt16 :=
  (Text.unsigned? 65535 name.toList).map UInt16.ofNat

/-- Slots of a variable with a descriptor; one, if the descriptor denotes no type. -/
def descriptorWidth (descriptor : String) : UInt16 :=
  match FieldType.parse descriptor with
  | .ok type => UInt16.ofNat type.size
  | .error _ => 1

namespace SlotUse

def ofOperation? (aliases : Aliases) (line : Nat) : Operation → Option SlotUse
  | .variable opcode name =>
    some ⟨line, aliases.resolve name, if opcode.isWide then 2 else 1, opcode.isStore⟩
  | .increment name _ => some ⟨line, aliases.resolve name, 1, false⟩
  | _ => none

def ofListing (listing : Listing) (aliases : Aliases) : List SlotUse :=
  listing.operations.filterMap fun (line, operation) => ofOperation? aliases line operation

/-- Joins a store with the earlier ones to the same name. -/
def declare (declared : List DeclaredName) (use : SlotUse) : List DeclaredName :=
  if declared.any (·.name == use.name) then
    declared.map fun name =>
      if name.name == use.name then { name with width := max name.width use.width } else name
  else declared ++ [⟨use.name, use.width, use.line⟩]

end SlotUse

namespace SlotTable

def get? (table : SlotTable) (name : String) : Option Variable := table.byName[name]?

def contains (table : SlotTable) (name : String) : Bool := table.byName.contains name

/-- Takes the slots of a run that lie below the limit. -/
def reserve (table : SlotTable) (index width : UInt16) : SlotTable :=
  let stop := min (index.toNat + width.toNat) slotLimit
  let slots := (List.range' index.toNat (stop - index.toNat)).map UInt16.ofNat
  { table with
    occupied := slots.foldl (fun occupied slot => occupied.insert slot) table.occupied
    high := max table.high (UInt16.ofNat stop) }

def insert (table : SlotTable) (entry : Variable) : SlotTable :=
  let table := table.reserve entry.index entry.width
  { table with
    entries := table.entries.push entry
    byName := table.byName.insert entry.name entry }

/-- An instance method has its receiver in the first slot. -/
def ofMethod (isStatic : Bool) (declaringType : String) : SlotTable :=
  let table : SlotTable := ⟨isStatic, #[], {}, {}, 0, {}⟩
  if isStatic then table
  else table.insert ⟨"this", 0, 1, some (nameDescriptor declaringType)⟩

/-- Registers a known variable, unless it does not fit or its name or slot is taken. -/
def addKnown (table : SlotTable) (known : BaselineVariable) : SlotTable :=
  let width := descriptorWidth known.descriptor
  if !fitsSlots known.index width then table
  else if table.contains known.name || table.occupied.contains known.index then table
  else table.insert ⟨known.name, known.index, width, some known.descriptor⟩

def addBaseline (table : SlotTable) (baseline : List BaselineVariable) : SlotTable :=
  baseline.foldl addKnown table

/-- Parameters take consecutive slots; one whose name is taken still takes up its slots, and none
after the first that does not fit is registered. -/
def addParametersFrom (table : SlotTable) (next : UInt16) : List Parameter → SlotTable
  | [] => table
  | parameter :: rest =>
    let width := descriptorWidth parameter.descriptor
    if !fitsSlots next width then table
    else
      let table :=
        if table.contains parameter.name then table.reserve next width
        else table.insert ⟨parameter.name, next, width, some parameter.descriptor⟩
      table.addParametersFrom (next + width) rest

/-- Parameters follow the receiver. -/
def addParameters (table : SlotTable) (parameters : List Parameter) : SlotTable :=
  table.addParametersFrom (if table.isStatic then 0 else 1) parameters

def isFree (table : SlotTable) (index width : UInt16) : Bool :=
  (List.range' index.toNat width.toNat).all fun slot =>
    !table.occupied.contains (UInt16.ofNat slot)

/-- The lowest run of free slots of a width. -/
def lowestFree? (table : SlotTable) (width : UInt16) : Option UInt16 :=
  let slots := (List.range 65536).map UInt16.ofNat
  slots.find? fun slot => fitsSlots slot width && table.isFree slot width

/-- Registers names one by one; without a free run for one the names before it stay. -/
def place (table : SlotTable) : List DeclaredName → SlotTable × Except CompileError Unit
  | [] => (table, .ok ())
  | declared :: rest =>
    match table.lowestFree? declared.width with
    | some slot => (table.insert ⟨declared.name, slot, declared.width, none⟩).place rest
    | none => (table, .error (.invalidOperand declared.line (.noFreeSlot declared.name)))

/-- Sets aside every slot used by number, then registers every new name that is stored to. A
failure leaves what was done before it. -/
def allocate (table : SlotTable) (uses : List SlotUse) : SlotTable × Except CompileError Unit :=
  let numbered := uses.filterMap fun use => (slotNumber? use.name).map fun slot => (use, slot)
  let fitting := numbered.takeWhile fun (use, slot) => fitsSlots slot use.width
  let reserved := fitting.foldl (fun table (use, slot) => table.reserve slot use.width) table
  match numbered.find? fun (use, slot) => !fitsSlots slot use.width with
  | some (use, slot) =>
    (reserved, .error (.invalidOperand use.line (.slotOutOfRange slot use.width)))
  | none =>
    let stores := uses.filter fun use =>
      (slotNumber? use.name).isNone && use.isStore && !table.contains use.name
    reserved.place (stores.foldl SlotUse.declare [])

/-- The slot of a local written as a number or as a registered name. -/
def slot (table : SlotTable) (name : String) (line : Nat) : Except CompileError UInt16 :=
  match slotNumber? name, table.get? name with
  | some slot, _ => .ok slot
  | none, some entry => .ok entry.index
  | none, none => .error (.undeclaredVariable name line)

end SlotTable
end Bytecode
