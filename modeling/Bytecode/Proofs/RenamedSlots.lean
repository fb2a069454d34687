import Bytecode.Proofs.Renaming
import Bytecode.Proofs.VariableRanges

/-! Slots under new names. A name is given the slots that the old one was given, so long as the names with
a meaning of their own stay: those of the receiver, of the parameters, of the baseline, and all numbers. -/

namespace Bytecode

def Variable.rename (rename : String → String) (entry : Variable) : Variable :=
  { entry with name := rename entry.name }

def SlotUse.rename (rename : String → String) (use : SlotUse) : SlotUse := { use with name := rename use.name }

def DeclaredName.rename (rename : String → String) (declared : DeclaredName) : DeclaredName :=
  { declared with name := rename declared.name }

def LocalVariable.rename (rename : String → String) (row : LocalVariable) : LocalVariable :=
  { row with name := rename row.name }

section
variable {rename : String → String}

/-- The new name of a name that is no number is none either. -/
theorem slotNumber?_rename (distinct : Function.Injective rename)
    (numbers : ∀ name, (slotNumber? name).isSome = true → rename name = name) (name : String) :
    slotNumber? (rename name) = slotNumber? name := by
  cases number : slotNumber? (rename name) with
  | some slot =>
    -- the new name, as a number, is its own new name
    have fixed : rename name = name := distinct (numbers _ (by rw [number]; rfl))
    rw [← number, fixed]
  | none =>
    cases old : slotNumber? name with
    | none => rfl
    | some slot =>
      rw [numbers name (by rw [old]; rfl), old] at number
      cases number

theorem beq_rename (distinct : Function.Injective rename) (first second : String) :
    (rename first == rename second) = (first == second) := by
  rw [Bool.eq_iff_iff, beq_iff_eq, beq_iff_eq, distinct.eq_iff]

namespace SlotTable

/-- The same table with a new name for each of its variables. -/
structure Renamed (rename : String → String) (table other : SlotTable) : Prop where
  isStatic : other.isStatic = table.isStatic
  entries : other.entries = table.entries.map (Variable.rename rename)
  names : ∀ name, other.get? (rename name) = (table.get? name).map (Variable.rename rename)
  occupied : other.occupied = table.occupied
  high : other.high = table.high
  live : ∀ name, other.live[rename name]? = table.live[name]?

namespace Renamed
variable {table other : SlotTable} (renamed : table.Renamed rename other)
include renamed

theorem contains (name : String) : other.contains (rename name) = table.contains name := by
  rw [contains_eq, contains_eq, renamed.names, Option.isSome_map]

theorem reserve (index width : UInt16) : (table.reserve index width).Renamed rename (other.reserve index width) where
  isStatic := renamed.isStatic
  entries := renamed.entries
  names := renamed.names
  occupied := by simp only [SlotTable.reserve, renamed.occupied]
  high := by simp only [SlotTable.reserve, renamed.high]
  live := renamed.live

theorem insert (distinct : Function.Injective rename) (entry : Variable) :
    (table.insert entry).Renamed rename (other.insert (entry.rename rename)) := by
  obtain ⟨isStatic, entries, names, occupied, high, live⟩ := renamed.reserve entry.index entry.width
  refine ⟨isStatic, ?_, ?_, occupied, high, live⟩
  · exact (congrArg (·.push (entry.rename rename)) entries).trans Array.map_push.symm
  · intro name
    have known : other.byName[rename name]? = (table.byName[name]?).map (Variable.rename rename) := renamed.names name
    simp only [SlotTable.insert, SlotTable.reserve, SlotTable.get?, Std.HashMap.getElem?_insert, Variable.rename,
      beq_rename distinct, known]
    split <;> rfl

/-- A variable that keeps its name. -/
theorem insert_fixed (distinct : Function.Injective rename) {entry : Variable}
    (fixed : rename entry.name = entry.name) : (table.insert entry).Renamed rename (other.insert entry) := by
  have same : entry.rename rename = entry := by rw [Variable.rename, fixed]
  have inserted := renamed.insert distinct entry
  rwa [same] at inserted

theorem addKnown (distinct : Function.Injective rename) {known : BaselineVariable}
    (fixed : rename known.name = known.name) : (table.addKnown known).Renamed rename (other.addKnown known) := by
  have registered : other.contains known.name = table.contains known.name := by
    rw [← renamed.contains, fixed]
  unfold SlotTable.addKnown
  simp only [registered, renamed.occupied]
  split
  next => exact renamed
  next =>
    split
    next => exact renamed
    next => exact renamed.insert_fixed distinct fixed

theorem addBaseline (distinct : Function.Injective rename) {baseline : List BaselineVariable}
    (fixed : ∀ known ∈ baseline, rename known.name = known.name) :
    (table.addBaseline baseline).Renamed rename (other.addBaseline baseline) := by
  induction baseline generalizing table other with
  | nil => exact renamed
  | cons known rest ih =>
    exact ih (renamed.addKnown distinct (fixed known List.mem_cons_self))
      fun other listed => fixed other (List.mem_cons_of_mem _ listed)

theorem addParametersFrom (distinct : Function.Injective rename) {parameters : List Parameter}
    (fixed : ∀ parameter ∈ parameters, rename parameter.name = parameter.name) (next : UInt16) :
    (table.addParametersFrom next parameters).Renamed rename (other.addParametersFrom next parameters) := by
  induction parameters generalizing table other next with
  | nil => exact renamed
  | cons parameter rest ih =>
    have same := fixed parameter List.mem_cons_self
    have registered : other.contains parameter.name = table.contains parameter.name := by
      rw [← renamed.contains, same]
    unfold SlotTable.addParametersFrom
    simp only [registered]
    split
    next => exact renamed
    next =>
      apply ih _ fun other listed => fixed other (List.mem_cons_of_mem _ listed)
      split
      next => exact renamed.reserve _ _
      next => exact renamed.insert_fixed distinct same

theorem reserveAll (pairs : List (SlotUse × UInt16)) : (table.reserveAll pairs).Renamed rename
    (other.reserveAll (pairs.map fun pair => (pair.1.rename rename, pair.2))) := by
  induction pairs generalizing table other with
  | nil => exact renamed
  | cons pair rest ih => exact ih (renamed.reserve pair.2 pair.1.width)

end Renamed

/-- Lookups find the same slots, or fail under the new name. -/
theorem Renamed.slot {names : NewNames} {table other : SlotTable} (renamed : table.Renamed names.locals other)
    (number : ∀ name, slotNumber? (names.locals name) = slotNumber? name) (name : String) (line : Nat) :
    other.slot (names.locals name) line = (table.slot name line).mapError (CompileError.rename names) := by
  unfold SlotTable.slot
  rw [number, renamed.names]
  cases slotNumber? name with
  | some slot => rfl
  | none => cases table.get? name <;> rfl

end SlotTable

namespace SlotUse

theorem ofListing_rename {names : NewNames} {listing : Listing} {aliases : Aliases}
    (plain : ∀ name, aliases.resolve name = name) :
    ofListing (listing.rename names) aliases = (ofListing listing aliases).map (SlotUse.rename names.locals) := by
  rw [ofListing, ofListing, Listing.operations_rename, List.filterMap_map, List.map_filterMap]
  apply List.filterMap_congr
  intro entry _
  obtain ⟨line, operation⟩ := entry
  cases operation with
  | «variable» | increment => simp [ofOperation?, Operation.rename, SlotUse.rename, plain]
  | _ => rfl

theorem declare_rename (distinct : Function.Injective rename) (declared : List DeclaredName) (use : SlotUse) :
    declare (declared.map (DeclaredName.rename rename)) (use.rename rename) =
      (declare declared use).map (DeclaredName.rename rename) := by
  have same (name : DeclaredName) : ((name.rename rename).name == (use.rename rename).name) = (name.name == use.name) :=
    beq_rename distinct _ _
  simp only [declare, List.any_map, Function.comp_def, same]
  split
  next =>
    rw [List.map_map, List.map_map]
    apply List.map_congr_left
    intro name _
    simp only [Function.comp_apply, same]
    split <;> rfl
  next => simp [DeclaredName.rename, SlotUse.rename]

theorem foldl_declare_rename (distinct : Function.Injective rename) (uses : List SlotUse)
    (declared : List DeclaredName) :
    (uses.map (SlotUse.rename rename)).foldl declare (declared.map (DeclaredName.rename rename)) =
      (uses.foldl declare declared).map (DeclaredName.rename rename) := by
  induction uses generalizing declared with
  | nil => rfl
  | cons use rest ih => rw [List.map_cons, List.foldl_cons, List.foldl_cons, declare_rename distinct, ih]

end SlotUse

namespace SlotTable.Renamed
variable {names : NewNames} {table other : SlotTable} (distinct : Function.Injective names.locals)
  (renamed : table.Renamed names.locals other)
include distinct renamed

theorem place (declared : List DeclaredName) :
    (table.place declared).1.Renamed names.locals (other.place (declared.map (DeclaredName.rename names.locals))).1 ∧
      (other.place (declared.map (DeclaredName.rename names.locals))).2 =
        (table.place declared).2.mapError (CompileError.rename names) := by
  induction declared generalizing table other with
  | nil => exact ⟨renamed, rfl⟩
  | cons name rest ih =>
    have free : other.lowestFree? name.width = table.lowestFree? name.width := by
      simp only [lowestFree?, isFree, renamed.occupied]
    rw [List.map_cons, place_cons, place_cons]
    simp only [DeclaredName.rename, free]
    split
    next slot _ => exact ih (renamed.insert distinct ⟨name.name, slot, name.width, none⟩)
    next => exact ⟨renamed, rfl⟩

theorem allocate (number : ∀ name, slotNumber? (names.locals name) = slotNumber? name) (uses : List SlotUse) :
    (table.allocate uses).1.Renamed names.locals (other.allocate (uses.map (SlotUse.rename names.locals))).1 ∧
      (other.allocate (uses.map (SlotUse.rename names.locals))).2 =
        (table.allocate uses).2.mapError (CompileError.rename names) := by
  have numbered : (uses.map (SlotUse.rename names.locals)).filterMap (fun use =>
      (slotNumber? use.name).map fun slot => (use, slot)) =
        (uses.filterMap fun use => (slotNumber? use.name).map fun slot => (use, slot)).map fun pair =>
          (pair.1.rename names.locals, pair.2) := by
    rw [List.filterMap_map, List.map_filterMap]
    apply List.filterMap_congr
    intro use _
    simp only [Function.comp_apply, SlotUse.rename, number, Option.map_map]
    rfl
  have stores : (uses.map (SlotUse.rename names.locals)).filter (fun use =>
      (slotNumber? use.name).isNone && use.isStore && !other.contains use.name) =
        (uses.filter fun use => (slotNumber? use.name).isNone && use.isStore && !table.contains use.name).map
          (SlotUse.rename names.locals) := by
    rw [List.filter_map]
    simp only [Function.comp_def, SlotUse.rename, number, renamed.contains]
  have declared (stores : List SlotUse) := SlotUse.foldl_declare_rename distinct stores []
  have width (use : SlotUse) : (use.rename names.locals).width = use.width := rfl
  unfold SlotTable.allocate
  simp only [numbered, stores, List.takeWhile_map, List.find?_map, Function.comp_def, width]
  generalize (uses.filterMap fun use => (slotNumber? use.name).map fun slot => (use, slot)) = pairs
  have reserved := renamed.reserveAll (pairs.takeWhile fun pair => fitsSlots pair.2 pair.1.width)
  cases pairs.find? fun pair => !fitsSlots pair.2 pair.1.width with
  | some pair => exact ⟨reserved, rfl⟩
  | none =>
    have placed := reserved.place distinct ((uses.filter fun use =>
      (slotNumber? use.name).isNone && use.isStore && !table.contains use.name).foldl SlotUse.declare [])
    rw [← declared] at placed
    exact placed

end SlotTable.Renamed

namespace SlotTable
open Verify (Frame)
variable {table other : SlotTable}

theorem foldl_record_rename (distinct : Function.Injective rename) (frames : List (Option Frame))
    (entries : List Variable) {live after : Std.HashMap String LiveRange}
    (same : ∀ name, after[rename name]? = live[name]?) (name : String) :
    ((entries.map (Variable.rename rename)).foldl (record frames) after)[rename name]? =
      (entries.foldl (record frames) live)[name]? := by
  induction entries generalizing live after with
  | nil => exact same name
  | cons entry rest ih =>
    apply ih
    intro name
    simp only [record_get?, Variable.rename, distinct.eq_iff, same]

/-- Variables that share their first slot keep their names. -/
def SharedFixed (rename : String → String) (table : SlotTable) : Prop :=
  ∀ first ∈ table.entries, ∀ second ∈ table.entries, first.index = second.index →
    first = second ∨ rename first.name = first.name ∧ rename second.name = second.name

namespace Renamed
variable (renamed : table.Renamed rename other)
include renamed

theorem inferRanges (distinct : Function.Injective rename) (frames : List (Option Frame)) :
    (table.inferRanges frames).Renamed rename (other.inferRanges frames) where
  isStatic := renamed.isStatic
  entries := renamed.entries
  names := renamed.names
  occupied := renamed.occupied
  high := renamed.high
  live := by
    intro name
    have untyped : other.entries.toList.filter (·.descriptor.isNone) =
        (table.entries.toList.filter (·.descriptor.isNone)).map (Variable.rename rename) := by
      rw [renamed.entries, Array.toList_map, List.filter_map]
      rfl
    have start (name : String) : ({} : Std.HashMap String LiveRange)[rename name]? =
        ({} : Std.HashMap String LiveRange)[name]? := by simp
    have recorded := foldl_record_rename distinct frames (table.entries.toList.filter (·.descriptor.isNone)) start name
    rw [← untyped] at recorded
    exact recorded

theorem localVariable? (labels : List PlacedLabel) (entry : Variable) :
    other.localVariable? labels (entry.rename rename) =
      (table.localVariable? labels entry).map (LocalVariable.rename rename) := by
  unfold SlotTable.localVariable?
  cases labels.head? with
  | none => rfl
  | some leading =>
    cases labels.getLast? with
    | none => rfl
    | some trailing =>
      simp only [Variable.rename, renamed.live]
      cases entry.descriptor with
      | some => rfl
      | none =>
        cases table.live[entry.name]? with
        | none => rfl
        | some range =>
          simp only [Option.bind_eq_bind, Option.bind_some]
          cases range.bounds? labels <;> rfl

/-- Rows are sorted by their slots; those of one slot keep their names and thus their order. -/
theorem localVariables (shared : table.SharedFixed rename) (instructions : List Instruction) :
    other.localVariables instructions = (table.localVariables instructions).map (LocalVariable.rename rename) := by
  have rows : other.entries.toList.filterMap (other.localVariable? (placedLabels instructions)) =
      (table.entries.toList.filterMap (table.localVariable? (placedLabels instructions))).map
        (LocalVariable.rename rename) := by
    rw [renamed.entries, Array.toList_map, List.filterMap_map, List.map_filterMap]
    exact List.filterMap_congr fun entry _ => renamed.localVariable? _ entry
  have order (left : LocalVariable)
      (listed : left ∈ table.entries.toList.filterMap (table.localVariable? (placedLabels instructions)))
      (right : LocalVariable)
      (also : right ∈ table.entries.toList.filterMap (table.localVariable? (placedLabels instructions))) :
      (decide (left.index < right.index) || (left.index == right.index && !decide (right.name < left.name))) =
        (decide (left.index < right.index) ||
          (left.index == right.index && !decide (rename right.name < rename left.name))) := by
    obtain ⟨first, among, found⟩ := List.mem_filterMap.mp listed
    obtain ⟨second, within, known⟩ := List.mem_filterMap.mp also
    obtain ⟨leftName, leftIndex⟩ := localVariable?_entry found
    obtain ⟨rightName, rightIndex⟩ := localVariable?_entry known
    by_cases same : left.index = right.index
    · have shares := shared first (Array.mem_toList_iff.mp among) second (Array.mem_toList_iff.mp within)
        (leftIndex.symm.trans (same.trans rightIndex))
      rw [leftName, rightName]
      rcases shares with rfl | ⟨one, two⟩
      · simp
      · rw [one, two]
    · have apart : (left.index == right.index) = false := beq_eq_false_iff_ne.mpr same
      rw [apart, Bool.false_and, Bool.false_and]
  simp only [SlotTable.localVariables, rows]
  exact (List.map_mergeSort order).symm

end Renamed

/-- A table whose variables all keep their names. -/
theorem Renamed.fixed (kept : table.Renamed rename table) {entry : Variable} (listed : entry ∈ table.entries) :
    rename entry.name = entry.name := by
  have same : table.entries.map (Variable.rename rename) = table.entries.map id := by
    rw [Array.map_id]
    exact kept.entries.symm
  exact congrArg Variable.name (Array.map_inj_left.mp same entry listed)

/-- New names are given slots of their own. -/
theorem Renamed.shared (kept : table.Renamed rename table) (sound : table.Sound) {final : SlotTable}
    (grown : Registers AllowsNew table final) : final.SharedFixed rename := by
  intro first listed second also same
  by_cases different : first = second
  · exact .inl different
  rcases grown.apart sound listed also different with apart | ⟨early, late⟩
  · have wide := (grown.sound sound).filled
    have one := wide first listed
    have two := wide second also
    have here : first.Covers first.index.toNat := ⟨Nat.le_refl _, by omega⟩
    have there : second.Covers first.index.toNat := by
      rw [same]
      exact ⟨Nat.le_refl _, by omega⟩
    exact absurd there (apart _ here)
  · exact .inr ⟨kept.fixed early, kept.fixed late⟩

end SlotTable

/-- Before the code is looked at, all variables are those of the receiver, of the baseline and of the
parameters. -/
theorem Assembler.initialSlots_renamed {assembler : Assembler} {header : Header} (distinct : Function.Injective rename)
    (receiver : rename "this" = "this") (baseline : ∀ known ∈ assembler.baseline, rename known.name = known.name)
    (parameters : ∀ parameter ∈ header.parameters, rename parameter.name = parameter.name) :
    (assembler.initialSlots header).Renamed rename (assembler.initialSlots header) := by
  have empty : SlotTable.Renamed rename ⟨header.isStatic, #[], {}, {}, 0, {}⟩ ⟨header.isStatic, #[], {}, {}, 0, {}⟩ :=
    ⟨rfl, by simp, by simp [SlotTable.get?], rfl, rfl, by simp⟩
  have start : (SlotTable.ofMethod header.isStatic assembler.declaringType).Renamed rename
      (.ofMethod header.isStatic assembler.declaringType) := by
    unfold SlotTable.ofMethod
    split
    next => exact empty
    next => exact empty.insert_fixed distinct receiver
  exact (start.addBaseline distinct baseline).addParametersFrom distinct parameters _

end
end Bytecode
