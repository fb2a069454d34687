import Bytecode.Proofs.RangeBounds
import Bytecode.Proofs.SlotAccess
import Bytecode.Proofs.VerifiedCode

/-! What the local variable table says of a variable without a declared type, and when that is what it
should say. -/

namespace Bytecode
open Verify (Frame)

/-- The entry of a variable that is live over a range, from one label to another. -/
def LiveRange.row (range : LiveRange) (entry : Variable) (start stop : PlacedLabel) : LocalVariable :=
  ⟨entry.name, entry.index, range.descriptor, start.label, stop.label⟩

/-- What a table should say of a variable that is live over a range: where the range lies, if there is a
label to end it. All that is live from its start up to the last label is then inside. -/
structure LiveRange.Documented (range : LiveRange) (labels : List PlacedLabel) (entry : Variable)
    (rows : List LocalVariable) : Prop where
  bounds : ∀ row, row ∈ rows ∧ row.name = entry.name ↔ ∃ start stop, range.Starts labels start ∧
    range.Stops labels start stop ∧ row = range.row entry start stop
  omitted : (∀ row ∈ rows, row.name ≠ entry.name) ↔
    labels = [] ∨ ∃ start, range.Starts labels start ∧ ∀ label ∈ labels, label.index ≤ start.index
  covers : ∀ row ∈ rows, row.name = entry.name → ∀ start ∈ labels, ∀ stop ∈ labels,
    row.start = start.label → row.stop = stop.label → ∀ index, range.first ≤ index → index ≤ range.last →
      start.index ≤ index → (∃ label ∈ labels, index < label.index) → index < stop.index

namespace LiveRange
variable {range : LiveRange} {labels : List PlacedLabel} {entry : Variable} {rows : List LocalVariable}

theorem row_inj (distinct : (labels.map (·.label)).Nodup) {start stop other last : PlacedLabel}
    (starts : start ∈ labels) (stops : stop ∈ labels) (begins : other ∈ labels) (finishes : last ∈ labels)
    (same : range.row entry start stop = range.row entry other last) : start = other ∧ stop = last := by
  simp only [row, LocalVariable.mk.injEq, true_and] at same
  exact ⟨List.inj_on_of_nodup_map distinct starts begins same.1,
    List.inj_on_of_nodup_map distinct stops finishes same.2⟩

variable (sorted : labels.Pairwise fun earlier later => earlier.index < later.index)
  (distinct : (labels.map (·.label)).Nodup)
  (emitted : ∀ row, row ∈ rows ∧ row.name = entry.name ↔ ∃ start stop, range.Starts labels start ∧
    range.Ends labels start stop ∧ row = range.row entry start stop)
include sorted emitted

theorem omitted_iff : (∀ row ∈ rows, row.name ≠ entry.name) ↔
    labels = [] ∨ ∃ start, range.Starts labels start ∧ ∀ label ∈ labels, label.index ≤ start.index := by
  constructor
  · intro omitted
    by_cases placed : labels = []
    · exact .inl placed
    · obtain ⟨start, starts⟩ : ∃ start, range.Starts labels start := Starts.exists sorted placed
      refine .inr ⟨start, starts, ?_⟩
      intro label listed
      by_contra ahead
      obtain ⟨stop, ends⟩ : ∃ stop, range.Ends labels start stop :=
        (ends_exists sorted).mpr ⟨label, listed, Nat.lt_of_not_le ahead⟩
      obtain ⟨listed, named⟩ := (emitted _).mpr ⟨start, stop, starts, ends, rfl⟩
      exact omitted _ listed named
  · intro final row listed named
    obtain ⟨start, stop, starts, ends, _⟩ := (emitted row).mp ⟨listed, named⟩
    obtain ⟨label, among, ahead⟩ := (ends_exists sorted).mp ⟨stop, ends⟩
    rcases final with none | ⟨other, also, last⟩
    · exact absurd starts.listed (none ▸ List.not_mem_nil)
    · cases starts.unique sorted also
      exact absurd ahead (Nat.not_lt.mpr (last label among))

include distinct

/-- The table says what it should exactly in the unambiguous case. -/
theorem documented_iff : range.Documented labels entry rows ↔ range.Unambiguous labels := by
  rw [unambiguous_iff sorted]
  constructor
  · intro documented start stop starts
    have agree := (emitted (range.row entry start stop)).symm.trans (documented.bounds _)
    constructor
    · intro ends
      obtain ⟨other, last, also, stops, same⟩ := agree.mp ⟨start, stop, starts, ends, rfl⟩
      obtain ⟨rfl, rfl⟩ := row_inj distinct starts.listed ends.listed also.listed stops.listed same
      exact stops
    · intro stops
      obtain ⟨other, last, also, ends, same⟩ := agree.mpr ⟨start, stop, starts, stops, rfl⟩
      obtain ⟨rfl, rfl⟩ := row_inj distinct starts.listed stops.listed also.listed ends.listed same
      exact ends
  · intro agree
    have bounds (row : LocalVariable) : row ∈ rows ∧ row.name = entry.name ↔ ∃ start stop,
        range.Starts labels start ∧ range.Stops labels start stop ∧ row = range.row entry start stop := by
      rw [emitted]
      constructor
      · intro ⟨start, stop, starts, ends, same⟩
        exact ⟨start, stop, starts, (agree start stop starts).mp ends, same⟩
      · intro ⟨start, stop, starts, stops, same⟩
        exact ⟨start, stop, starts, (agree start stop starts).mpr stops, same⟩
    refine ⟨bounds, omitted_iff sorted emitted, ?_⟩
    intro row listed named start _ stop last _ finishes index _ live _ ahead
    obtain ⟨_, other, _, stops, rfl⟩ := (bounds row).mp ⟨listed, named⟩
    cases List.inj_on_of_nodup_map distinct stops.listed last finishes
    exact stops.covers live ahead

end LiveRange

namespace SlotTable
variable {table : SlotTable} {entry : Variable} {frames : List (Option Frame)} {range : LiveRange}
  {row : LocalVariable} {instructions : List Instruction}

/-- Notes the range of a variable. -/
def record (frames : List (Option Frame)) (live : Std.HashMap String LiveRange) (entry : Variable) :
    Std.HashMap String LiveRange :=
  match LiveRange.infer? frames entry.index.toNat with
  | some range => live.insert entry.name range
  | none => live

theorem record_get? {live : Std.HashMap String LiveRange} {name : String} : (record frames live entry)[name]? =
    if entry.name = name then (LiveRange.infer? frames entry.index.toNat).or live[name]? else live[name]? := by
  unfold record
  cases LiveRange.infer? frames entry.index.toNat with
  | none => simp
  | some range => simp [Std.HashMap.getElem?_insert]

theorem record_foldl {entries : List Variable} {live : Std.HashMap String LiveRange}
    (names : ∀ other ∈ entries, other.name = entry.name → other = entry) :
    (entries.foldl (record frames) live)[entry.name]? = if entry ∈ entries then
      (LiveRange.infer? frames entry.index.toNat).or live[entry.name]? else live[entry.name]? := by
  induction entries generalizing live with
  | nil => simp
  | cons first rest ih =>
    rw [List.foldl_cons, ih fun other listed => names other (List.mem_cons_of_mem _ listed), record_get?]
    by_cases same : first.name = entry.name
    · cases names first List.mem_cons_self same
      simp [← Option.or_assoc]
    · have other : entry ≠ first := fun equal => same (congrArg _ equal.symm)
      simp [same, other]

/-- Names are told apart, so that each variable has the range that its own slot gives. -/
theorem inferRanges_live (sound : table.Sound) (listed : entry ∈ table.entries) (untyped : entry.descriptor = none) :
    (table.inferRanges frames).live[entry.name]? = LiveRange.infer? frames entry.index.toNat := by
  have noted : (table.inferRanges frames).live =
    (table.entries.toList.filter (·.descriptor.isNone)).foldl (record frames) {} := rfl
  rw [noted, record_foldl, if_pos (by simp [listed, untyped])]
  · simp
  · intro other among same
    exact sound.unique (Array.mem_toList_iff.mp (List.mem_filter.mp among).1) listed same

theorem localVariable?_entry {labels : List PlacedLabel} (found : table.localVariable? labels entry = some row) :
    row.name = entry.name ∧ row.index = entry.index := by
  obtain ⟨_, _, found⟩ := Option.bind_eq_some_iff.mp found
  obtain ⟨_, _, found⟩ := Option.bind_eq_some_iff.mp found
  split at found
  next =>
    cases found
    exact ⟨rfl, rfl⟩
  next =>
    obtain ⟨_, _, found⟩ := Option.bind_eq_some_iff.mp found
    obtain ⟨_, _, found⟩ := Option.bind_eq_some_iff.mp found
    cases found
    exact ⟨rfl, rfl⟩

theorem localVariable?_untyped {labels : List PlacedLabel}
    (sorted : labels.Pairwise fun earlier later => earlier.index < later.index)
    (untyped : entry.descriptor = none) (live : table.live[entry.name]? = some range) :
    table.localVariable? labels entry = some row ↔ ∃ start stop, range.Starts labels start ∧
      range.Ends labels start stop ∧ row = range.row entry start stop := by
  have bounds : table.localVariable? labels entry = (range.bounds? labels).map fun bounds =>
      ⟨entry.name, entry.index, range.descriptor, bounds.1, bounds.2⟩ := by
    cases labels with
    | nil => rfl
    | cons leading rest =>
      cases known : range.bounds? (leading :: rest) <;>
        simp [localVariable?, untyped, live, known, List.getLast?_cons]
  simp only [bounds, Option.map_eq_some_iff, LiveRange.bounds?_iff sorted]
  constructor
  · intro ⟨_, ⟨start, stop, starts, ends, rfl⟩, same⟩
    exact ⟨start, stop, starts, ends, same.symm⟩
  · intro ⟨start, stop, starts, ends, same⟩
    exact ⟨_, ⟨start, stop, starts, ends, rfl⟩, same.symm⟩

theorem mem_localVariables : row ∈ table.localVariables instructions ↔
    ∃ entry ∈ table.entries, table.localVariable? (placedLabels instructions) entry = some row := by
  simp [localVariables]

/-- The only row of a variable is its own. -/
theorem mem_localVariables_name (unique : ∀ other ∈ table.entries, other.name = entry.name → other = entry)
    (listed : entry ∈ table.entries) : row ∈ table.localVariables instructions ∧ row.name = entry.name ↔
      table.localVariable? (placedLabels instructions) entry = some row := by
  rw [mem_localVariables]
  constructor
  · intro ⟨⟨other, among, found⟩, named⟩
    cases unique other among ((localVariable?_entry found).1.symm.trans named)
    exact found
  · intro found
    exact ⟨⟨entry, listed, found⟩, (localVariable?_entry found).1⟩

theorem inferRanges_documented (sound : table.Sound) (listed : entry ∈ table.entries)
    (untyped : entry.descriptor = none) (live : LiveRange.infer? frames entry.index.toNat = some range)
    (distinct : (instructions.filterMap Instruction.mark?).Nodup) :
    range.Documented (placedLabels instructions) entry ((table.inferRanges frames).localVariables instructions) ↔
      range.Unambiguous (placedLabels instructions) := by
  have sorted := placedLabels_sorted instructions
  apply LiveRange.documented_iff sorted (placedLabels_marks instructions ▸ distinct)
  intro row
  have noted : (table.inferRanges frames).live[entry.name]? = some range :=
    (inferRanges_live sound listed untyped).trans live
  have unique : ∀ other ∈ (table.inferRanges frames).entries, other.name = entry.name → other = entry :=
    fun _ among => sound.unique among listed
  rw [mem_localVariables_name unique listed, localVariable?_untyped sorted untyped noted]

end SlotTable

namespace Assembler
variable {assembler : Assembler} {source : ReadListing} {assembly : Assembly} {compilation : Compilation}
  {frames : Array (Option Frame)} {rows : List LocalVariable} {entry : Variable} {range : LiveRange}

section
variable {header : Header} {slots : SlotTable} {emission : Emission}
  (parts : Parts assembler source assembly compilation header slots emission)
include parts

theorem Parts.registers : SlotTable.Registers SlotTable.AllowsNew (assembler.initialSlots header) slots :=
  (SlotTable.allocate_ok (assembler.initialSlots_sound header) (fun _ => SlotUse.positive) parts.allocated).1

theorem Parts.sound : slots.Sound := parts.registers.sound (assembler.initialSlots_sound header)

theorem Parts.marks_distinct : (assembly.method.instructions.toList.filterMap Instruction.mark?).Nodup :=
  parts.instructions ▸ (Emission.marked_ofListing parts.emitted).distinct

theorem Parts.documented_iff (observed : assembly.frames = some frames)
    (written : assembly.method.variableTable = some rows)
    (listed : entry ∈ compilation.tables.slots.entries) (untyped : entry.descriptor = none)
    (live : LiveRange.infer? frames.toList entry.index.toNat = some range) :
    range.Documented (placedLabels assembly.method.instructions.toList) entry rows ↔
      range.Unambiguous (placedLabels assembly.method.instructions.toList) := by
  obtain ⟨_, inferred⟩ := parts.verified frames observed
  have made := parts.variableTable
  rw [inferred] at listed made
  split at made
  next =>
    cases made.symm.trans written
    exact SlotTable.inferRanges_documented parts.sound listed untyped live parts.marks_distinct
  next => cases made.symm.trans written

end

/-- A variable without a declared type that is live over a range has the row that is documented, exactly
if a label comes after the range or no more than one comes after the start of the row. -/
theorem variable_row_iff (compiled : assembler.compile source = .ok assembly)
    (made : assembly.compilation = some compilation) (observed : assembly.frames = some frames)
    (written : assembly.method.variableTable = some rows) (listed : entry ∈ compilation.tables.slots.entries)
    (untyped : entry.descriptor = none)
    (live : LiveRange.infer? frames.toList entry.index.toNat = some range) :
    range.Documented (placedLabels assembly.method.instructions.toList) entry rows ↔
      range.Unambiguous (placedLabels assembly.method.instructions.toList) := by
  obtain ⟨_, _, _, parts⟩ := compile_parts compiled made
  exact parts.documented_iff observed written listed untyped live

/-- Counts in a variable that is live up to the end, with one label behind the start of its range or
with two. -/
def counting (two : Bool) : ReadListing :=
  ⟨⟨[⟨1, .definition ⟨[.accStatic], "n", [], "V"⟩⟩, ⟨2, .label "a"⟩, ⟨3, .operation (.simple .iconst0)⟩,
    ⟨4, .operation (.variable .istore "i")⟩, ⟨5, .operation (.simple .nop)⟩, ⟨6, .label "b"⟩,
    ⟨7, .operation (.simple .nop)⟩, ⟨8, if two then .label "c" else .operation (.simple .nop)⟩,
    ⟨9, .operation (.simple .returnVoid)⟩]⟩, []⟩

def counter : Variable := ⟨"i", 0, 1, none⟩

def countingSlots : SlotTable := (SlotTable.ofMethod true "Main").insert counter

def countingEmission (two : Bool) : Emission where
  instructions := #[.label ⟨0⟩, .simple .iconst0, .variable .istore 0, .simple .nop, .label ⟨1⟩, .simple .nop,
    if two then .label ⟨2⟩ else .simple .nop, .simple .returnVoid]
  origins := ⟨#[⟨1, 2⟩, ⟨2, 3⟩, ⟨3, 4⟩, ⟨4, 5⟩, ⟨5, 6⟩, ⟨6, 7⟩, ⟨7, 8⟩, ⟨8, 9⟩]⟩
  placed := (if two then [(⟨2⟩, 8)] else []) ++ [(⟨1⟩, 6), (⟨0⟩, 2)]

/-- Before the store, after it, and up to the end. -/
def countingFrames : Array (Option Frame) :=
  #[some ⟨[.empty], []⟩, some ⟨[.empty], []⟩, some ⟨[.empty], [.int]⟩, some ⟨[.int], []⟩,
    some ⟨[.int], []⟩, some ⟨[.int], []⟩, some ⟨[.int], []⟩, some ⟨[.int], []⟩]

/-- One store takes the first slot, if it is free. -/
theorem counter_allocate {table : SlotTable} (fresh : table.contains "i" = false) (free : table.isFree 0 1 = true)
    (line : Nat) : table.allocate [⟨line, "i", 1, true⟩] = (table.insert counter, .ok ()) := by
  have number : slotNumber? "i" = none := by decide +kernel
  simp [SlotTable.allocate, number, fresh, SlotUse.declare, SlotTable.place_cons, SlotTable.lowestFree?_of_free free]
  rfl

theorem counter_slot {table : SlotTable} (line : Nat) : (table.insert counter).slot "i" line = .ok 0 := by
  have number : slotNumber? "i" = none := by decide +kernel
  simp [counter, SlotTable.slot, number, SlotTable.get?, SlotTable.insert, SlotTable.reserve]

theorem defaults_allocate (line : Nat) :
    (defaults.initialSlots (shortHeader 8)).allocate [⟨line, "i", 1, true⟩] = (countingSlots, .ok ()) := by
  have initial : defaults.initialSlots (shortHeader 8) = .ofMethod true "Main" := rfl
  rw [initial]
  exact counter_allocate (by simp [SlotTable.ofMethod, SlotTable.contains])
    (by simp [SlotTable.ofMethod, SlotTable.isFree]) line

theorem counting_uses (two : Bool) : SlotUse.ofListing (counting two).listing (.ofListing (counting two).listing) =
    [⟨4, "i", 1, true⟩] := by
  cases two <;> decide +kernel

theorem counting_allocate (two : Bool) : (defaults.initialSlots (shortHeader 8)).allocate
    (SlotUse.ofListing (counting two).listing (.ofListing (counting two).listing)) = (countingSlots, .ok ()) := by
  rw [counting_uses]
  exact defaults_allocate 4

theorem counting_emitted (two : Bool) {slots : SlotTable} (stored : ∀ line, slots.slot "i" line = .ok 0) :
    Emission.ofListing ⟨.ofListing (counting two).listing, slots, .ofListing (counting two).listing⟩
      (counting two).listing = .ok (countingEmission two) := by
  have aliases : Aliases.ofListing (counting two).listing = ⟨[]⟩ := by cases two <;> rfl
  have labels : LabelTable.ofListing (counting two).listing =
    ⟨[⟨"a", 2⟩, ⟨"b", 6⟩] ++ if two then [⟨"c", 8⟩] else []⟩ := by cases two <;> decide +kernel
  have found (labels : LabelTable) (line : Nat) :
      (Tables.scope ⟨labels, slots, ⟨[]⟩⟩ line).slot "i" = .ok 0 := stored line
  have apart (first second : Nat) : ((⟨first⟩ : Label) == ⟨second⟩) = decide (first = second) := by
    rw [Bool.eq_iff_iff]
    simp
  have stores : Opcode.operands .istore = .slot := rfl
  have constant : Opcode.operands .iconst0 = .none := rfl
  have idles : Opcode.operands .nop = .none := rfl
  have returns : Opcode.operands .returnVoid = .none := rfl
  rw [aliases, labels]
  cases two <;>
    simp [Emission.ofListing, counting, Emission.step, Emission.place, LabelTable.get?, List.findIdx?_cons,
      Operation.compile, Scope.checkShape, Operation.shape?, stores, constant, idles, returns, found, Emission.push,
      Emission.empty, List.lookup_cons, apart, bind, Except.bind, pure, Except.pure, countingEmission]

theorem counting_read (two : Bool) :
    Header.ofListing (counting two).listing (.ofListing (counting two).listing) = .ok (shortHeader 8) := by
  cases two <;> decide +kernel

theorem counting_resolved (two : Bool) : ExceptionRange.ofListing (counting two).listing
    (.ofListing (counting two).listing) (.ofListing (counting two).listing) = .ok [] := by
  cases two <;> rfl

theorem counting_compile (two : Bool) : ∃ assembly compilation rows,
    defaults.compile (counting two) = .ok assembly ∧ assembly.compilation = some compilation ∧
    assembly.frames = some countingFrames ∧ assembly.method.variableTable = some rows ∧
    counter ∈ compilation.tables.slots.entries ∧
    assembly.method.instructions = (countingEmission two).instructions := by
  have accepted : defaults.verifier.analyze (defaults.assemble (shortHeader 8) [] countingSlots
      (countingEmission two)) = .ok countingFrames := by cases two <;> decide +kernel
  have compiled := compile_of_parts rfl (counting_read two) rfl (counting_resolved two) (counting_allocate two)
    (counting_emitted two counter_slot) rfl accepted
  refine ⟨_, _, _, compiled, rfl, rfl, rfl, ?_, rfl⟩
  simp [countingSlots, SlotTable.inferRanges, SlotTable.insert]

theorem counting_live : LiveRange.infer? countingFrames.toList counter.index.toNat = some ⟨3, 7, "I"⟩ := by
  decide +kernel

theorem variable_row_iff_counting : ∃ assembly compilation rows, defaults.compile (counting false) = .ok assembly ∧
    assembly.compilation = some compilation ∧ assembly.frames = some countingFrames ∧
    assembly.method.variableTable = some rows ∧ counter ∈ compilation.tables.slots.entries ∧
    counter.descriptor = none ∧ LiveRange.infer? countingFrames.toList counter.index.toNat = some ⟨3, 7, "I"⟩ ∧
    (LiveRange.Documented ⟨3, 7, "I"⟩ (placedLabels assembly.method.instructions.toList) counter rows ↔
      LiveRange.Unambiguous (placedLabels assembly.method.instructions.toList) ⟨3, 7, "I"⟩) := by
  obtain ⟨assembly, compilation, rows, compiled, made, observed, written, listed, _⟩ := counting_compile false
  exact ⟨assembly, compilation, rows, compiled, made, observed, written, listed, rfl, counting_live,
    variable_row_iff compiled made observed written listed rfl counting_live⟩

/-- With two labels behind the start the row ends at the first of them, although the variable is live
behind it. -/
theorem counting_ends_early : ∃ assembly compilation rows, defaults.compile (counting true) = .ok assembly ∧
    assembly.compilation = some compilation ∧ assembly.frames = some countingFrames ∧
    assembly.method.variableTable = some rows ∧ counter ∈ compilation.tables.slots.entries ∧
    counter.descriptor = none ∧ LiveRange.infer? countingFrames.toList counter.index.toNat = some ⟨3, 7, "I"⟩ ∧
    ¬ LiveRange.Documented ⟨3, 7, "I"⟩ (placedLabels assembly.method.instructions.toList) counter rows := by
  obtain ⟨assembly, compilation, rows, compiled, made, observed, written, listed, code⟩ := counting_compile true
  obtain ⟨_, _, _, parts⟩ := compile_parts compiled made
  refine ⟨assembly, compilation, rows, compiled, made, observed, written, listed, rfl, counting_live, ?_⟩
  have labels : placedLabels assembly.method.instructions.toList = [⟨0, ⟨0⟩⟩, ⟨4, ⟨1⟩⟩, ⟨6, ⟨2⟩⟩] := by
    rw [code]
    rfl
  have starts : LiveRange.Starts [⟨0, ⟨0⟩⟩, ⟨4, ⟨1⟩⟩, ⟨6, ⟨2⟩⟩] ⟨3, 7, "I"⟩ ⟨0, ⟨0⟩⟩ :=
    .before ⟨by simp, by simp, by simp⟩
  rw [parts.documented_iff observed written listed rfl counting_live, labels]
  intro unambiguous
  rcases unambiguous with after | single
  · simp at after
  · cases single _ starts ⟨4, ⟨1⟩⟩ (by simp) ⟨6, ⟨2⟩⟩ (by simp) (by simp) (by simp)

end Assembler
end Bytecode
