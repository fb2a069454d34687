import Bytecode.Proofs.EmittedCode
import Bytecode.Proofs.SlotRanges

/-! Which slots compiled code touches. A local written as a number has all of its slots to itself;
one written as a name has as many as its variable, whatever the opcode that uses it. -/

namespace Bytecode

/-- The first slot that an instruction touches, and how many. -/
def Instruction.access? : Instruction → Option (Nat × Nat)
  | .variable opcode slot => some (slot.toNat, if opcode.isWide then 2 else 1)
  | .increment slot _ => some (slot.toNat, 1)
  | _ => none

def Instruction.isStore : Instruction → Bool
  | .variable opcode _ => opcode.isStore
  | _ => false

/-- An access through a name or a number stays below the bound and, through a name, within the
slots registered for it. -/
def SlotTable.Confines (table : SlotTable) (bound : Nat) (name : String) (slot width : Nat) : Prop :=
  slot + width ≤ bound ∧ (slotNumber? name = none → ∃ entry, table.get? name = some entry ∧
    ∀ touched, slot ≤ touched → touched < slot + width → entry.Covers touched)

/-- A name is registered with as many slots as an access to it touches. -/
def SlotTable.Suits (table : SlotTable) (name : String) (width : Nat) : Prop :=
  slotNumber? name = none → ∀ entry, table.get? name = some entry → width ≤ entry.width.toNat

variable {scope : Scope} {operation : Operation} {instruction : Instruction}

/-- The record of a use of a local has the slot of the local, and the width of the use. -/
theorem Operation.compile_access {slot width : Nat} (compiled : operation.compile scope = .ok instruction)
    (accesses : instruction.access? = some (slot, width)) :
    ∃ use number, SlotUse.ofOperation? scope.aliases scope.line operation = some use ∧
      scope.slots.slot use.name scope.line = .ok number ∧ slot = number.toNat ∧
      width = use.width.toNat ∧ instruction.isStore = use.isStore := by
  obtain ⟨_, compiles⟩ := Operation.compile_ok.mp compiled
  cases compiles with
  | «variable» found =>
    cases accesses
    refine ⟨_, _, rfl, found, rfl, ?_, rfl⟩
    simp only
    split <;> rfl
  | increment _ _ found =>
    cases accesses
    exact ⟨_, _, rfl, found, rfl, rfl, rfl⟩
  | _ => cases accesses

theorem SlotUse.mem_ofListing {listing : Listing} {aliases : Aliases} {index line : Nat} {use : SlotUse}
    (stands : listing.entries[index]? = some ⟨line, .operation operation⟩)
    (used : SlotUse.ofOperation? aliases line operation = some use) :
    use ∈ SlotUse.ofListing listing aliases := by
  have chosen : (line, operation) ∈ listing.operations :=
    List.mem_filterMap.mpr ⟨⟨line, .operation operation⟩, List.mem_of_getElem? stands, rfl⟩
  exact List.mem_filterMap.mpr ⟨(line, operation), chosen, used⟩

theorem SlotTable.slot_ok {table : SlotTable} {name : String} {line : Nat} {slot : UInt16}
    (found : table.slot name line = .ok slot) : slotNumber? name = some slot ∨
      slotNumber? name = none ∧ ∃ entry, table.get? name = some entry ∧ entry.index = slot := by
  unfold SlotTable.slot at found
  split at found
  next number written =>
    cases found
    exact .inl written
  next entry symbolic known =>
    cases found
    exact .inr ⟨symbolic, entry, known, rfl⟩
  next => cases found

namespace SlotTable
variable {table : SlotTable} {name : String}

/-- An access through the slot of a variable is confined when the variable is wide enough. -/
theorem confines_iff (sound : table.Sound) {entry : Variable} {width : Nat} (positive : 0 < width)
    (symbolic : slotNumber? name = none) (known : table.get? name = some entry) :
    table.Confines table.high.toNat name entry.index.toNat width ↔ table.Suits name width := by
  have listed := ((sound.known name entry).mp known).1
  have ends := sound.ends listed
  constructor
  · intro confines _ other found
    obtain ⟨again, same, covers⟩ := confines.2 symbolic
    obtain rfl := Option.some.inj (known.symm.trans found)
    obtain rfl := Option.some.inj (known.symm.trans same)
    have last := covers (entry.index.toNat + width - 1) (by omega) (by omega)
    unfold Variable.Covers at last
    omega
  · intro suits
    have wide := suits symbolic entry known
    refine ⟨by omega, ?_⟩
    intro _
    refine ⟨entry, known, ?_⟩
    intro touched low high
    unfold Variable.Covers
    omega

end SlotTable

namespace Assembler
variable {assembler : Assembler} {source : ReadListing} {assembly : Assembly} {compilation : Compilation}

theorem initialSlots_sound (header : Header) : (assembler.initialSlots header).Sound :=
  (SlotTable.addParameters_registers _ _).sound SlotTable.ofBaseline_sound

theorem initialSlots_typed (header : Header) {entry : Variable}
    (listed : entry ∈ (assembler.initialSlots header).entries) : entry.descriptor.isSome = true := by
  rcases (SlotTable.addParameters_registers _ _).new (fun _ _ allowed => allowed) listed with known | new
  · rcases SlotTable.ofBaseline_registers.new (fun _ _ allowed => allowed.2) known with none | typed
    · exact absurd none (Array.not_mem_empty _)
    · exact typed.2
  · exact new.2

/-- In an assembled method, a record that touches slots comes from the use of a local. It stays
below the bound and within the slots of the name it was written with exactly if that name has as
many slots as the record touches. Numbers always have, and so have names that are known by their
stores alone, as far as stores go. -/
theorem access_confined_iff (compiled : assembler.compile source = .ok assembly)
    (made : assembly.compilation = some compilation) {index slot width : Nat} {instruction : Instruction}
    (present : assembly.method.instructions[index]? = some instruction)
    (accesses : instruction.access? = some (slot, width)) :
    ∃ entry line operation use, compilation.origins.entries[index]? = some ⟨entry, line⟩ ∧
      source.listing.entries[entry]? = some ⟨line, .operation operation⟩ ∧
      SlotUse.ofOperation? compilation.tables.aliases line operation = some use ∧
      (compilation.tables.slots.Confines assembly.method.maxLocals.toNat use.name slot width ↔
        compilation.tables.slots.Suits use.name width) ∧
      (instruction.isStore = true →
        (∀ entry, compilation.tables.slots.get? use.name = some entry → entry.descriptor = none) →
          compilation.tables.slots.Suits use.name width) := by
  obtain ⟨header, slots, emission, parts⟩ := compile_parts compiled made
  rw [parts.instructions] at present
  obtain ⟨⟨entry, line⟩, origin, emits⟩ :=
    (Emission.traced_ofListing parts.emitted).emits index instruction present
  cases emits with
  | label => cases accesses
  | @operation operation _ stands compiled =>
    obtain ⟨use, number, used, found, rfl, rfl, store⟩ := Operation.compile_access compiled accesses
    have listed : use ∈ SlotUse.ofListing source.listing (.ofListing source.listing) :=
      SlotUse.mem_ofListing stands used
    have initial := assembler.initialSlots_sound header
    obtain ⟨grown, numbers, stores⟩ := SlotTable.allocate_ok initial (fun _ => SlotUse.positive) parts.allocated
    have sound := grown.sound initial
    refine ⟨entry, line, operation, use, parts.origins ▸ origin, stands, parts.aliases ▸ used, ?_⟩
    simp only [SlotTable.Confines, SlotTable.Suits, parts.names, parts.maxLocals]
    rcases SlotTable.slot_ok found with written | ⟨symbolic, variable_entry, known, rfl⟩
    · have inside := numbers use listed number written
      simp only [written, reduceCtorEq, false_implies, and_true, implies_true, iff_true]
      exact inside
    · refine ⟨SlotTable.confines_iff sound (SlotUse.positive listed) symbolic known, ?_⟩
      intro stored untyped _ other named
      have unknown : (assembler.initialSlots header).contains use.name = false := by
        rw [initial.fresh_iff]
        intro old there same
        have kept := (sound.known use.name old).mpr ⟨grown.kept there, same⟩
        have typed := initialSlots_typed header there
        rw [untyped old kept] at typed
        cases typed
      obtain ⟨placed, same⟩ := (sound.known use.name other).mp named
      exact stores use listed symbolic (store ▸ stored) unknown other placed same

/-- Stores to a new name, and loads a wide value from it. -/
def spill (store : Opcode) : ReadListing :=
  ⟨⟨[⟨1, .definition ⟨[.accStatic], "spill", [], "V"⟩⟩, ⟨2, .operation (.variable store "v")⟩,
    ⟨3, .operation (.variable .lload "v")⟩]⟩, []⟩

def unchecked : Assembler := ⟨"Main", { verify := false, variableTable := false }, []⟩

def spillHeader : Header := ⟨⟨8⟩, "spill", "()V", none, [], [], 1⟩

def spillSlots (slot width : UInt16) : SlotTable :=
  (unchecked.initialSlots spillHeader).insert ⟨"v", slot, width, none⟩

theorem spill_allocate {store : Opcode} {width : UInt16} (narrow : width.toNat ≤ 2)
    (uses : SlotUse.ofListing (spill store).listing ⟨[]⟩ = [⟨2, "v", width, true⟩, ⟨3, "v", 2, false⟩]) :
    ∃ slot, fitsSlots slot width = true ∧
      (unchecked.initialSlots spillHeader).allocate (SlotUse.ofListing (spill store).listing ⟨[]⟩) =
        (spillSlots slot width, .ok ()) := by
  have sound := unchecked.initialSlots_sound spillHeader
  have room : (unchecked.initialSlots spillHeader).high.toNat + width.toNat ≤ slotLimit :=
    Nat.le_trans (Nat.add_le_add_left narrow _) (by decide +kernel)
  obtain ⟨slot, free⟩ := sound.lowestFree?_isSome width room
  have number : slotNumber? "v" = none := by decide +kernel
  have fresh : (unchecked.initialSlots spillHeader).contains "v" = false := by
    rw [sound.fresh_iff]
    exact fun _ listed => absurd listed (Array.not_mem_empty _)
  refine ⟨slot, (SlotTable.lowestFree?_some free).1, ?_⟩
  rw [uses]
  simp [SlotTable.allocate, number, fresh, SlotUse.declare, SlotTable.place_cons, free]
  rfl

theorem spill_emitted {store : Opcode} (labels : LabelTable) (slot width : UInt16)
    (shape : store.operands = .slot) :
    Emission.ofListing ⟨labels, spillSlots slot width, ⟨[]⟩⟩ (spill store).listing =
      .ok ⟨#[.variable store slot, .variable .lload slot], ⟨#[⟨1, 2⟩, ⟨2, 3⟩]⟩, []⟩ := by
  have number : slotNumber? "v" = none := by decide +kernel
  have found (line : Nat) : (spillSlots slot width).slot "v" line = .ok slot := by
    simp [spillSlots, SlotTable.slot, number, SlotTable.get?, SlotTable.insert, SlotTable.reserve]
  have resolved (line : Nat) : (Tables.scope ⟨labels, spillSlots slot width, ⟨[]⟩⟩ line).slot "v" = .ok slot :=
    found line
  have loads : Opcode.operands .lload = .slot := rfl
  simp [Emission.ofListing, spill, Emission.step, Operation.compile, Scope.checkShape, Operation.shape?,
    shape, loads, resolved, Emission.push, Emission.empty, bind, Except.bind, pure, Except.pure]

theorem spill_compile (store : Opcode) (width : UInt16) (narrow : width.toNat ≤ 2)
    (shape : store.operands = .slot)
    (header : Header.ofListing (spill store).listing ⟨[]⟩ = .ok spillHeader)
    (uses : SlotUse.ofListing (spill store).listing ⟨[]⟩ = [⟨2, "v", width, true⟩, ⟨3, "v", 2, false⟩]) :
    ∃ slot assembly compilation, unchecked.compile (spill store) = .ok assembly ∧
      assembly.compilation = some compilation ∧
      assembly.method.instructions[1]? = some (.variable .lload slot) ∧
      assembly.method.maxLocals.toNat = slot.toNat + width.toNat := by
  have aliases : Aliases.ofListing (spill store).listing = ⟨[]⟩ := rfl
  have sound : (spill store).problems = [] := rfl
  have ranges : ExceptionRange.ofListing (spill store).listing (.ofListing (spill store).listing) ⟨[]⟩ =
    .ok [] := rfl
  obtain ⟨slot, fits, allocated⟩ := spill_allocate narrow uses
  have emitted := spill_emitted (.ofListing (spill store).listing) slot width shape
  have high : (spillSlots slot width).high.toNat = max 0 (slot.toNat + width.toNat) :=
    SlotTable.high_reserve fits
  rw [Nat.max_eq_right (Nat.zero_le _)] at high
  refine ⟨slot, ?_⟩
  simp only [Assembler.compile, sound, aliases, header, Assembler.compileCode, ranges, bind, Except.bind]
  simp only [allocated, emitted]
  exact ⟨_, _, rfl, rfl, rfl, high⟩

theorem access_confined_iff_spill : ∃ slot assembly compilation,
    unchecked.compile (spill .lstore) = .ok assembly ∧ assembly.compilation = some compilation ∧
    assembly.method.instructions[1]? = some (.variable .lload slot) ∧
    (Instruction.variable .lload slot).access? = some (slot.toNat, 2) ∧
    ∃ entry line operation use, compilation.origins.entries[1]? = some ⟨entry, line⟩ ∧
      (spill .lstore).listing.entries[entry]? = some ⟨line, .operation operation⟩ ∧
      SlotUse.ofOperation? compilation.tables.aliases line operation = some use ∧
      (compilation.tables.slots.Confines assembly.method.maxLocals.toNat use.name slot.toNat 2 ↔
        compilation.tables.slots.Suits use.name 2) ∧
      ((Instruction.variable .lload slot).isStore = true →
        (∀ entry, compilation.tables.slots.get? use.name = some entry → entry.descriptor = none) →
          compilation.tables.slots.Suits use.name 2) := by
  obtain ⟨slot, assembly, compilation, compiled, made, present, _⟩ :=
    spill_compile .lstore 2 (by decide) rfl (by decide +kernel) (by decide +kernel)
  exact ⟨slot, assembly, compilation, compiled, made, present, rfl,
    access_confined_iff compiled made present rfl⟩

/-- A name that is stored to narrowly has one slot, and a wide load of it is compiled all the same. -/
theorem spill_exceeds_locals : ∃ slot assembly, unchecked.compile (spill .istore) = .ok assembly ∧
    assembly.method.instructions[1]? = some (.variable .lload slot) ∧
    (Instruction.variable .lload slot).access? = some (slot.toNat, 2) ∧
    ¬ slot.toNat + 2 ≤ assembly.method.maxLocals.toNat := by
  obtain ⟨slot, assembly, compilation, compiled, made, present, bound⟩ :=
    spill_compile .istore 1 (by decide) rfl (by decide +kernel) (by decide +kernel)
  have one : (1 : UInt16).toNat = 1 := rfl
  exact ⟨slot, assembly, compiled, present, rfl, by omega⟩

end Assembler
end Bytecode
