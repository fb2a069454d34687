import Bytecode.Proofs.EmittedNames

/-! The local variable table as a whole. It is in strict order, no variable has two rows, and a row lies between
two labels of the code, of which neither is out of place. -/

namespace Bytecode
open List

namespace LocalVariable

/-- By slot, and by name in one slot; no two rows are alike in both. -/
def Precedes (first second : LocalVariable) : Prop :=
  first.index.toNat < second.index.toNat ∨ first.index = second.index ∧ first.name < second.name

/-- The labels of a row stand in the code, each in one place. -/
structure Lies (row : LocalVariable) (instructions : List Instruction) (start stop : Nat) : Prop where
  starts : ∀ index, instructions[index]? = some (.label row.start) ↔ index = start
  stops : ∀ index, instructions[index]? = some (.label row.stop) ↔ index = stop

theorem precedes_of_before {first second : LocalVariable} (before : first.before second = true)
    (different : first.name ≠ second.name) : first.Precedes second := by
  rcases before_iff.mp before with lower | ⟨same, named⟩
  · exact .inl lower
  · exact .inr ⟨same, String.not_le.mp fun back => different (String.le_antisymm named back)⟩

end LocalVariable

/-- The row is the one of a variable: it names it, its slot and its declared type, if there is one, and goes from
a label on to the same one or a later one; to a later one, if the type is inferred. -/
structure Variable.Row (entry : Variable) (instructions : List Instruction) (row : LocalVariable) : Prop where
  name : row.name = entry.name
  index : row.index = entry.index
  descriptor : ∀ descriptor, entry.descriptor = some descriptor → row.descriptor = descriptor
  lies : ∃ start stop, row.Lies instructions start stop ∧ start ≤ stop ∧ (entry.descriptor = none → start < stop)

/-- The rows of the registered variables. -/
structure SlotTable.Tabulates (table : SlotTable) (instructions : List Instruction) (limit : Nat)
    (rows : List LocalVariable) : Prop where
  ordered : rows.Pairwise LocalVariable.Precedes
  single : (rows.map (·.name)).Nodup
  registered : ∀ row ∈ rows, ∃ entry ∈ table.entries, entry.Row instructions row
  declared : (∃ label, .label label ∈ instructions) → ∀ entry ∈ table.entries, entry.descriptor.isSome = true →
    ∃ row ∈ rows, entry.Row instructions row
  below : ∀ row ∈ rows, row.index.toNat < limit

namespace SlotTable
variable {table : SlotTable} {entry : Variable} {row : LocalVariable} {instructions : List Instruction}

/-- Registration keeps names apart. -/
theorem Registers.distinct {allows : SlotTable → Variable → Prop} {before after : SlotTable}
    (grown : Registers allows before after) (sound : before.Sound)
    (distinct : (before.entries.toList.map (·.name)).Nodup) : (after.entries.toList.map (·.name)).Nodup := by
  induction grown with
  | refl => exact distinct
  | reserve _ _ ih => exact ih
  | @insert table entry earlier _ fresh _ _ ih =>
    have pushed : (table.insert entry).entries.toList = table.entries.toList ++ [entry] := Array.toList_push
    rw [pushed, List.map_append]
    refine ih.append (List.nodup_singleton _) (List.disjoint_singleton.mpr ?_)
    intro known
    obtain ⟨other, listed, same⟩ := List.mem_map.mp known
    exact (earlier.sound sound).fresh_iff.mp fresh other (Array.mem_toList_iff.mp listed) same

theorem localVariables_single (distinct : (table.entries.toList.map (·.name)).Nodup) :
    ((table.localVariables instructions).map (·.name)).Nodup := by
  have rows : (table.entries.toList.filterMap (table.localVariable? (placedLabels instructions))).Pairwise
      fun first second => first.name ≠ second.name := by
    apply (List.pairwise_map.mp distinct).filterMap
    intro first second apart row found other also
    rw [(localVariable?_entry found).1, (localVariable?_entry also).1]
    exact apart
  exact ((List.mergeSort_perm _ _).map _).nodup_iff.mpr (List.pairwise_map.mpr rows)

theorem localVariables_ordered (distinct : (table.entries.toList.map (·.name)).Nodup) :
    (table.localVariables instructions).Pairwise LocalVariable.Precedes := by
  have sorted : (table.localVariables instructions).Pairwise fun first second => first.before second = true :=
    List.pairwise_mergeSort LocalVariable.before_trans LocalVariable.before_total _
  have single : (table.localVariables instructions).Pairwise fun first second => first.name ≠ second.name :=
    List.pairwise_map.mp (localVariables_single distinct)
  exact sorted.imp₂ (fun _ _ => LocalVariable.precedes_of_before) single

theorem lies_of_placed (distinct : (instructions.filterMap Instruction.mark?).Nodup) {start stop : PlacedLabel}
    (starts : start ∈ placedLabels instructions) (stops : stop ∈ placedLabels instructions)
    (begins : row.start = start.label) (ends : row.stop = stop.label) :
    row.Lies instructions start.index stop.index := by
  have alone {placed : PlacedLabel} (listed : placed ∈ placedLabels instructions) (index : Nat) :
      instructions[index]? = some (.label placed.label) ↔ index = placed.index := by
    constructor
    · intro stands
      have also : ⟨index, placed.label⟩ ∈ placedLabels instructions := mem_placedLabels.mpr stands
      exact congrArg PlacedLabel.index (List.inj_on_of_nodup_map (placedLabels_marks instructions ▸ distinct)
        also listed rfl)
    · rintro rfl
      exact mem_placedLabels.mp listed
  exact ⟨begins ▸ alone starts, ends ▸ alone stops⟩

/-- The row of a variable whose type is declared goes from the first label to the last. -/
theorem localVariable?_typed {labels : List PlacedLabel} {descriptor : String}
    (typed : entry.descriptor = some descriptor) : table.localVariable? labels entry = some row ↔
      ∃ leading trailing, labels.head? = some leading ∧ labels.getLast? = some trailing ∧
        row = ⟨entry.name, entry.index, descriptor, leading.label, trailing.label⟩ := by
  simp only [localVariable?, typed, Option.bind_eq_bind, Option.bind_eq_some_iff, Option.pure_def, Option.some.injEq]
  constructor
  · rintro ⟨leading, head, trailing, last, same⟩
    exact ⟨leading, trailing, head, last, same.symm⟩
  · rintro ⟨leading, trailing, head, last, same⟩
    exact ⟨leading, head, trailing, last, same.symm⟩

theorem localVariable?_row (distinct : (instructions.filterMap Instruction.mark?).Nodup)
    (found : table.localVariable? (placedLabels instructions) entry = some row) : entry.Row instructions row := by
  have sorted := placedLabels_sorted instructions
  obtain ⟨named, placed⟩ := localVariable?_entry found
  cases kind : entry.descriptor with
  | some descriptor =>
    obtain ⟨leading, trailing, head, last, rfl⟩ := (localVariable?_typed kind).mp found
    have lowest := (PlacedLabel.head?_lowest sorted).mp head
    have listed := List.mem_of_getLast? last
    refine ⟨named, placed, fun other same => ?_, leading.index, trailing.index,
      lies_of_placed distinct lowest.listed listed rfl rfl, lowest.lowest trailing listed trivial, ?_⟩
    · exact Option.some.inj (kind.symm.trans same)
    · intro untyped
      cases kind.symm.trans untyped
  | none =>
    cases live : table.live[entry.name]? with
    | none => simp [localVariable?, kind, live] at found
    | some range =>
      obtain ⟨start, stop, starts, ends, rfl⟩ := (localVariable?_untyped sorted kind live).mp found
      have behind := ends.behind
      refine ⟨named, placed, ?_, start.index, stop.index, lies_of_placed distinct starts.listed ends.listed rfl rfl,
        Nat.le_of_lt behind, fun _ => behind⟩
      intro descriptor typed
      cases kind.symm.trans typed

theorem localVariables_tabulate (sound : table.Sound) (apart : (table.entries.toList.map (·.name)).Nodup)
    (distinct : (instructions.filterMap Instruction.mark?).Nodup) :
    table.Tabulates instructions table.high.toNat (table.localVariables instructions) := by
  refine ⟨localVariables_ordered apart, localVariables_single apart, ?_, ?_, ?_⟩
  · intro row listed
    obtain ⟨entry, known, found⟩ := mem_localVariables.mp listed
    exact ⟨entry, known, localVariable?_row distinct found⟩
  · rintro ⟨label, stands⟩ entry known typed
    obtain ⟨descriptor, typed⟩ := Option.isSome_iff_exists.mp typed
    obtain ⟨index, stands⟩ := List.mem_iff_getElem?.mp stands
    have placed : ⟨index, label⟩ ∈ placedLabels instructions := mem_placedLabels.mpr stands
    obtain ⟨leading, head⟩ := Option.isSome_iff_exists.mp (List.isSome_head?.mpr (List.ne_nil_of_mem placed))
    obtain ⟨trailing, last⟩ := Option.isSome_iff_exists.mp (List.getLast?_isSome.mpr (List.ne_nil_of_mem placed))
    obtain ⟨row, found⟩ : ∃ row, table.localVariable? (placedLabels instructions) entry = some row :=
      ⟨_, (localVariable?_typed typed).mpr ⟨leading, trailing, head, last, rfl⟩⟩
    exact ⟨row, mem_localVariables.mpr ⟨entry, known, found⟩, localVariable?_row distinct found⟩
  · intro row listed
    obtain ⟨entry, known, found⟩ := mem_localVariables.mp listed
    have ends := sound.ends known
    have filled := sound.filled entry known
    rw [(localVariable?_entry found).2]
    omega

end SlotTable

namespace Assembler
variable {assembler : Assembler} {source : ReadListing} {assembly : Assembly} {compilation : Compilation}
  {header : Header} {slots : SlotTable} {emission : Emission}

theorem initialSlots_distinct (header : Header) :
    ((assembler.initialSlots header).entries.toList.map (·.name)).Nodup :=
  (SlotTable.addParameters_registers _ _).distinct SlotTable.ofBaseline_sound
    (SlotTable.ofBaseline_registers.distinct (SlotTable.sound_empty _) List.nodup_nil)

theorem Parts.tabulates (parts : Parts assembler source assembly compilation header slots emission) :
    compilation.tables.slots.Tabulates assembly.method.instructions.toList assembly.method.maxLocals.toNat
      (compilation.tables.slots.localVariables assembly.method.instructions.toList) := by
  have sound := parts.sound
  have apart := parts.registers.distinct (assembler.initialSlots_sound header) (assembler.initialSlots_distinct header)
  obtain ⟨live, same⟩ := parts.slots
  rw [same, parts.maxLocals]
  exact SlotTable.localVariables_tabulate ⟨sound.known, sound.reserved, sound.below, sound.filled⟩ apart
    parts.marks_distinct

/-- A variable table that comes with assembled code is in order, has one row at most for a variable and a row for
each whose type is declared, and each row lies in the code and below the limit of slots. -/
theorem variable_table_ordered {rows : List LocalVariable} (compiled : assembler.compile source = .ok assembly)
    (written : assembly.method.variableTable = some rows) : ∃ compilation,
    assembly.compilation = some compilation ∧ compilation.tables.slots.Tabulates
      assembly.method.instructions.toList assembly.method.maxLocals.toNat rows := by
  obtain ⟨header, _, ⟨_, _, bare⟩ | ⟨_, compilation, slots, emission, made, parts⟩⟩ := compile_ok compiled
  · rw [bare] at written
    cases written
  · refine ⟨compilation, made, ?_⟩
    have asked := parts.variableTable
    rw [written] at asked
    split at asked
    next =>
      cases asked
      exact parts.tabulates
    next => cases asked

/-- The variable that was known before is registered first, but has the higher slot. -/
def recalledCounter : SlotTable := recalledSlots.insert counter

/-- The code never sets the variable that was known before. -/
def recalledFrames : Array (Option Verify.Frame) :=
  let unset := [.empty, .empty, .empty]
  let set := [.int, .empty, .empty]
  #[some ⟨unset, []⟩, some ⟨unset, []⟩, some ⟨unset, [.int]⟩, some ⟨set, []⟩, some ⟨set, []⟩, some ⟨set, []⟩,
    some ⟨set, []⟩, some ⟨set, []⟩]

theorem recalling_allocate : (recalling.initialSlots (shortHeader 8)).allocate
    (SlotUse.ofListing (counting true).listing (.ofListing (counting true).listing)) = (recalledCounter, .ok ()) := by
  have initial : recalling.initialSlots (shortHeader 8) = recalledSlots := recalling_slots
  have third : List.range' 2 (min 3 slotLimit - 2) = [2] := rfl
  rw [initial, counting_uses]
  exact counter_allocate
    (by simp [recalledSlots, SlotTable.insert, SlotTable.reserve, SlotTable.ofMethod, SlotTable.contains])
    (by simp [recalledSlots, SlotTable.insert, SlotTable.reserve, SlotTable.ofMethod, SlotTable.isFree, third]) 4

theorem recalled_prepared : recalling.Prepared (counting true).listing (shortHeader 8) [] recalledCounter
    (countingEmission true) :=
  ⟨counting_read true, rfl, counting_resolved true, recalling_allocate, counting_emitted true counter_slot⟩

/-- The row of the declared variable goes from the first label to the last, and that of the inferred one ends at the
label behind its store. -/
theorem recalled_rows :
    (recalledCounter.inferRanges recalledFrames.toList).localVariables (countingEmission true).instructions.toList =
      [⟨"i", 0, "I", ⟨0⟩, ⟨1⟩⟩, ⟨"count", 2, "I", ⟨0⟩, ⟨2⟩⟩] := by
  have live : LiveRange.infer? recalledFrames.toList counter.index.toNat = some ⟨3, 7, "I"⟩ := by decide +kernel
  have noted : (recalledCounter.inferRanges recalledFrames.toList).live["i"]? = some ⟨3, 7, "I"⟩ :=
    (SlotTable.inferRanges_live recalled_prepared.sound Array.mem_push_self rfl).trans live
  have labels : placedLabels (countingEmission true).instructions.toList = [⟨0, ⟨0⟩⟩, ⟨4, ⟨1⟩⟩, ⟨6, ⟨2⟩⟩] := rfl
  have entries : (recalledCounter.inferRanges recalledFrames.toList).entries.toList =
    [⟨"count", 2, 1, some "I"⟩, counter] := rfl
  rw [SlotTable.localVariables, labels, entries]
  simp [SlotTable.localVariable?, noted, counter, LiveRange.bounds?, List.mergeSort,
    List.MergeSort.Internal.splitInTwo]

theorem variable_table_ordered_recalling : ∃ assembly rows, recalling.compile (counting true) = .ok assembly ∧
    assembly.method.variableTable = some rows ∧
    rows = [⟨"i", 0, "I", ⟨0⟩, ⟨1⟩⟩, ⟨"count", 2, "I", ⟨0⟩, ⟨2⟩⟩] ∧
    ∃ compilation, assembly.compilation = some compilation ∧
      compilation.tables.slots.Tabulates assembly.method.instructions.toList assembly.method.maxLocals.toNat rows := by
  have prepared := recalled_prepared
  have accepted : recalling.verifier.analyze (recalling.assemble (shortHeader 8) [] recalledCounter
      (countingEmission true)) = .ok recalledFrames := by decide +kernel
  have compiled := compile_of_parts rfl prepared.read rfl prepared.resolved prepared.allocated prepared.emitted rfl
    accepted
  exact ⟨_, _, compiled, rfl, recalled_rows, variable_table_ordered compiled rfl⟩

end Assembler
end Bytecode
