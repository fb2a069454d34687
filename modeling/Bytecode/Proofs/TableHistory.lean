import Bytecode.Proofs.ArgumentSlots
import Bytecode.Proofs.CheckedSlots
import Bytecode.Proofs.VariableTable

/-! What holds of a table of slots after any operations in any order. Its names, slots and high-water mark fit
together, an instance method keeps its receiver in the first slot, and what is registered once stays as it is. -/

namespace Bytecode
namespace SlotTable

/-- What is done to a table once it is made. -/
inductive Change where
  | addBaseline (baseline : List BaselineVariable)
  | addParameters (parameters : List Parameter)
  | allocate (listing : Listing) (aliases : Aliases)
  | inferRanges (frames : List (Option Verify.Frame))

/-- The table after a change. An allocation that fails leaves what it did before that. -/
def change (table : SlotTable) : Change → SlotTable
  | .addBaseline baseline => table.addBaseline baseline
  | .addParameters parameters => table.addParameters parameters
  | .allocate listing aliases => (table.allocate (SlotUse.ofListing listing aliases)).1
  | .inferRanges frames => table.inferRanges frames

/-- The table of a method after any changes in any order. -/
def history (isStatic : Bool) (declaringType : String) (changes : List Change) : SlotTable :=
  changes.foldl change (ofMethod isStatic declaringType)

namespace Checked

def change (table : SlotTable) : Change → Option SlotTable
  | .addBaseline baseline => addBaseline table baseline
  | .addParameters parameters => addParameters table parameters
  | .allocate listing aliases => (allocate table (SlotUse.ofListing listing aliases)).map (·.1)
  | .inferRanges frames => some (table.inferRanges frames)

def history (isStatic : Bool) (declaringType : String) (changes : List Change) : Option SlotTable := do
  let table ← ofMethod isStatic declaringType
  changes.foldlM change table

theorem change_eq (table : SlotTable) (step : Change) : change table step = some (table.change step) := by
  cases step with
  | addBaseline baseline => exact addBaseline_eq table baseline
  | addParameters parameters => exact addParametersFrom_eq table _ parameters
  | allocate listing aliases =>
    rw [change, allocate_eq]
    rfl
  | inferRanges frames => rfl

theorem history_eq (isStatic : Bool) (declaringType : String) (changes : List Change) :
    history isStatic declaringType changes = some (SlotTable.history isStatic declaringType changes) := by
  unfold history
  rw [ofMethod_eq, funext₂ change_eq]
  exact List.foldlM_pure

end Checked

/-- Names, slots and the high-water mark fit together. -/
structure Coherent (table : SlotTable) : Prop where
  distinct : (table.entries.toList.map (·.name)).Nodup
  found : ∀ name entry, table.get? name = some entry ↔ entry ∈ table.entries ∧ entry.name = name
  missing : ∀ name, table.get? name = none ↔ ∀ entry ∈ table.entries, entry.name ≠ name
  inside : ∀ entry ∈ table.entries, entry.index.toNat + entry.width.toNat ≤ slotLimit
  occupied : ∀ entry ∈ table.entries, ∀ slot, entry.Covers slot → UInt16.ofNat slot ∈ table.occupied
  high : (∀ slot, slot ∉ table.occupied) ∧ table.high = 0 ∨
    ∃ top, IsGreatest {slot | slot ∈ table.occupied} top ∧ table.high.toNat = top.toNat + 1

/-- The first slot is the receiver's and no other variable's. -/
structure Receives (table : SlotTable) (declaringType : String) : Prop where
  registered : table.get? "this" = some (receiver declaringType)
  alone : ∀ entry ∈ table.entries, entry.Covers 0 → entry = receiver declaringType

/-- What is registered stays so, unchanged and in its place. -/
structure Grows (before after : SlotTable) : Prop where
  entries : before.entries.toList <+: after.entries.toList
  found : ∀ name entry, before.get? name = some entry → after.get? name = some entry

variable {table before after : SlotTable} {index width : UInt16} {entry : Variable}
  {allows : SlotTable → Variable → Prop} {isStatic : Bool} {declaringType : String}

/-! ### The high-water mark -/

/-- The mark is above all slots in use, and right above one of them if there is any. -/
structure Marked (table : SlotTable) : Prop where
  below : ∀ slot ∈ table.occupied, slot.toNat < table.high.toNat
  attained : table.high.toNat = 0 ∨ ∃ slot ∈ table.occupied, table.high.toNat = slot.toNat + 1

theorem mem_occupied_reserve (fits : fitsSlots index width = true) {slot : UInt16} :
    slot ∈ (table.reserve index width).occupied ↔
      slot ∈ table.occupied ∨ index.toNat ≤ slot.toNat ∧ slot.toNat < index.toNat + width.toNat := by
  have limit := fitsSlots_iff.mp fits
  have stop : min (index.toNat + width.toNat) slotLimit = index.toNat + width.toNat := by omega
  simp only [reserve, stop, mem_foldl_insert, List.mem_map, List.mem_range'_1]
  refine or_congr_right ⟨?_, ?_⟩
  · rintro ⟨number, within, rfl⟩
    rw [toNat_ofNat_slot (by omega)]
    omega
  · intro within
    exact ⟨slot.toNat, by omega, UInt16.ofNat_toNat⟩

theorem Marked.reserve (marked : table.Marked) (fits : fitsSlots index width = true) (positive : 0 < width.toNat) :
    (table.reserve index width).Marked := by
  have limit := fitsSlots_iff.mp fits
  refine ⟨?_, ?_⟩
  · intro slot listed
    rw [high_reserve fits]
    rcases (mem_occupied_reserve fits).mp listed with old | within
    · have lower := marked.below slot old
      omega
    · omega
  -- A run is never empty: where it ends above the old mark, its last slot is the highest in use.
  · rw [high_reserve fits]
    by_cases above : table.high.toNat < index.toNat + width.toNat
    · obtain ⟨last, number⟩ : ∃ last : UInt16, last.toNat = index.toNat + width.toNat - 1 :=
        ⟨_, toNat_ofNat_slot (by omega)⟩
      exact .inr ⟨last, (mem_occupied_reserve fits).mpr (.inr (by omega)), by omega⟩
    · rcases marked.attained with zero | ⟨slot, listed, high⟩
      · omega
      · exact .inr ⟨slot, (mem_occupied_reserve fits).mpr (.inl listed), by omega⟩

theorem Marked.insert (marked : table.Marked) (fits : fitsSlots entry.index entry.width = true)
    (positive : 0 < entry.width.toNat) : (table.insert entry).Marked :=
  ⟨(marked.reserve fits positive).below, (marked.reserve fits positive).attained⟩

theorem Marked.ofMethod (isStatic : Bool) (declaringType : String) : (ofMethod isStatic declaringType).Marked := by
  have empty : (⟨isStatic, #[], {}, {}, 0, {}⟩ : SlotTable).Marked := ⟨by simp, .inl rfl⟩
  cases isStatic with
  | true => exact empty
  | false => exact empty.insert rfl Nat.one_pos

theorem Marked.addKnown (marked : table.Marked) (known : BaselineVariable) : (table.addKnown known).Marked := by
  unfold SlotTable.addKnown
  extract_lets width
  split
  next => exact marked
  next fits =>
    split
    next => exact marked
    next => exact marked.insert (by simpa using fits) (descriptorWidth_pos _)

theorem Marked.addBaseline (marked : table.Marked) (baseline : List BaselineVariable) :
    (table.addBaseline baseline).Marked := by
  induction baseline generalizing table with
  | nil => exact marked
  | cons known rest ih => exact ih (marked.addKnown known)

theorem Marked.addParametersFrom (marked : table.Marked) (next : UInt16) (parameters : List Parameter) :
    (table.addParametersFrom next parameters).Marked := by
  induction parameters generalizing table next with
  | nil => exact marked
  | cons parameter rest ih =>
    have positive := descriptorWidth_pos parameter.descriptor
    rw [SlotTable.addParametersFrom]
    split
    next => exact marked
    next fits =>
      have fits : fitsSlots next (descriptorWidth parameter.descriptor) = true := by simpa using fits
      split
      next => exact ih (marked.reserve fits positive) _
      next => exact ih (marked.insert fits positive) _

theorem Marked.reserveAll {numbered : List (SlotUse × UInt16)} (marked : table.Marked)
    (fits : ∀ pair ∈ numbered, fitsSlots pair.2 pair.1.width = true)
    (positive : ∀ pair ∈ numbered, 0 < pair.1.width.toNat) : (table.reserveAll numbered).Marked := by
  induction numbered generalizing table with
  | nil => exact marked
  | cons pair rest ih =>
    obtain ⟨fit, fits⟩ := List.forall_mem_cons.mp fits
    obtain ⟨wide, positive⟩ := List.forall_mem_cons.mp positive
    exact ih (marked.reserve fit wide) fits positive

theorem Marked.insertAll {entries : List Variable} (marked : table.Marked)
    (fits : ∀ entry ∈ entries, fitsSlots entry.index entry.width = true)
    (positive : ∀ entry ∈ entries, 0 < entry.width.toNat) : (table.insertAll entries).Marked := by
  induction entries generalizing table with
  | nil => exact marked
  | cons entry rest ih =>
    obtain ⟨fit, fits⟩ := List.forall_mem_cons.mp fits
    obtain ⟨wide, positive⟩ := List.forall_mem_cons.mp positive
    exact ih (marked.insert fit wide) fits positive

theorem Marked.allocate {uses : List SlotUse} (marked : table.Marked) (sound : table.Sound)
    (positive : ∀ use ∈ uses, 0 < use.width.toNat) : (table.allocate uses).1.Marked := by
  have wide : ∀ pair ∈ SlotUse.numbered uses, 0 < pair.1.width.toNat := fun pair listed =>
    positive pair.1 (SlotUse.mem_numbered.mp listed).1
  by_cases overruns : ∃ use ∈ uses, use.Overruns
  · rw [(allocate_overrunning table overruns).1]
    exact marked.reserveAll (List.all_eq_true.mp List.all_takeWhile) fun pair listed =>
      wide pair ((List.takeWhile_sublist _).subset listed)
  · have final : (table.allocate uses).1.Sound := (allocate_registers positive).sound sound
    rw [allocate_fitting overruns] at final ⊢
    obtain ⟨before, after, placed, _, fit, made, _⟩ := place_firstFit
      (table.reserveAll (SlotUse.numbered uses)) (table.newNames uses)
    rw [made] at final ⊢
    refine (marked.reserveAll (numbered_fits_iff.mpr overruns) wide).insertAll fit.fits fun entry listed => ?_
    apply final.filled entry
    rw [← Array.mem_toList_iff, entries_insertAll]
    exact List.mem_append_right _ listed

theorem Marked.change (marked : table.Marked) (sound : table.Sound) (step : Change) : (table.change step).Marked := by
  cases step with
  | addBaseline baseline => exact marked.addBaseline baseline
  | addParameters parameters => exact marked.addParametersFrom _ parameters
  | allocate listing aliases => exact marked.allocate sound fun _ => SlotUse.positive
  | inferRanges frames => exact ⟨marked.below, marked.attained⟩

/-! ### Registration -/

theorem Registers.entries_prefix (grown : Registers allows before after) :
    before.entries.toList <+: after.entries.toList := by
  induction grown with
  | refl => exact List.prefix_refl _
  | reserve _ _ ih => exact ih
  | @insert table entry _ _ _ _ _ ih =>
    have pushed : (table.insert entry).entries.toList = table.entries.toList ++ [entry] := Array.toList_push
    rw [pushed]
    exact ih.trans (List.prefix_append _ _)

/-- Nothing is registered on the first slot once that is taken. -/
def SparesFirst (allows : SlotTable → Variable → Prop) : Prop :=
  ∀ table entry, table.Taken 0 → allows table entry → ¬ entry.Covers 0

theorem Registers.receives (grown : Registers allows before after) (spares : SparesFirst allows)
    (sound : before.Sound) (receives : before.Receives declaringType) : after.Receives declaringType := by
  obtain ⟨there, _⟩ := (sound.known _ _).mp receives.registered
  refine ⟨((grown.sound sound).known _ _).mpr ⟨grown.kept there, rfl⟩, ?_⟩
  induction grown with
  | refl => exact receives.alone
  | reserve _ _ ih => exact ih
  | @insert table entry earlier _ _ _ allowed ih =>
    -- By now the receiver itself has taken the first slot.
    have first : (receiver declaringType).Covers 0 := ⟨Nat.le_refl _, Nat.one_pos⟩
    have taken : table.Taken 0 := (earlier.sound sound).reserved _ (earlier.kept there) 0 first
    intro other listed covers
    rcases Array.mem_push.mp listed with old | rfl
    · exact ih other old covers
    · exact absurd covers (spares _ _ taken allowed)

theorem sparesFirst_known : SparesFirst AllowsKnown := by
  intro table entry taken allowed covers
  have first : entry.index.toNat = 0 := Nat.le_zero.mp covers.1
  exact allowed.1 (first ▸ taken)

theorem sparesFirst_parameter : SparesFirst fun _ => AllowsParameter 1 := by
  intro table entry _ allowed covers
  have first := covers.1
  have behind := allowed.1
  omega

theorem sparesFirst_new : SparesFirst AllowsNew :=
  fun _ _ taken allowed covers => allowed.1 0 covers taken

/-- Apart from the live ranges, a change only reserves slots and registers new names. -/
theorem change_registers (table : SlotTable) (step : Change) : ∃ allows grown live, Registers allows table grown ∧
    table.change step = { grown with live := live } ∧ (table.isStatic = false → SparesFirst allows) := by
  cases step with
  | addBaseline baseline =>
    exact ⟨_, _, _, addBaseline_registers table baseline, rfl, fun _ => sparesFirst_known⟩
  | addParameters parameters =>
    refine ⟨_, _, _, addParametersFrom_registers table _ parameters, rfl, fun kind => ?_⟩
    rw [kind]
    exact sparesFirst_parameter
  | allocate listing aliases =>
    exact ⟨_, _, _, allocate_registers fun _ => SlotUse.positive, rfl, fun _ => sparesFirst_new⟩
  | inferRanges frames => exact ⟨fun _ _ => False, table, _, .refl, rfl, fun _ _ _ _ => False.elim⟩

theorem Reachable.change (reachable : table.Reachable) (step : Change) : (table.change step).Reachable := by
  cases step with
  | addBaseline baseline => exact reachable.addBaseline baseline
  | addParameters parameters => exact reachable.addParameters parameters
  | allocate listing aliases => exact reachable.allocate listing aliases
  | inferRanges frames => exact reachable.inferRanges frames

/-! ### Histories -/

/-- What every change keeps. -/
structure Kept (isStatic : Bool) (declaringType : String) (table : SlotTable) : Prop where
  kind : table.isStatic = isStatic
  reachable : table.Reachable
  distinct : (table.entries.toList.map (·.name)).Nodup
  marked : table.Marked
  receives : isStatic = false → table.Receives declaringType

theorem kept_ofMethod (isStatic : Bool) (declaringType : String) :
    Kept isStatic declaringType (ofMethod isStatic declaringType) := by
  have start := ofMethod_registers isStatic declaringType
  have reachable : (ofMethod isStatic declaringType).Reachable := .ofMethod isStatic declaringType
  have distinct := start.distinct (sound_empty isStatic) .nil
  refine ⟨start.isStatic, reachable, distinct, .ofMethod isStatic declaringType, ?_⟩
  rintro rfl
  have entries : (ofMethod false declaringType).entries = #[receiver declaringType] := rfl
  refine ⟨(reachable.sound.known _ _).mpr ⟨?_, rfl⟩, fun entry listed _ => ?_⟩
  · simp [entries]
  · simpa [entries] using listed

theorem Kept.change (kept : Kept isStatic declaringType table) (step : Change) :
    Kept isStatic declaringType (table.change step) := by
  have sound := kept.reachable.sound
  have reachable := kept.reachable.change step
  have marked := kept.marked.change sound step
  obtain ⟨allows, grown, live, registers, same, spares⟩ := change_registers table step
  have distinct := registers.distinct sound kept.distinct
  rw [same] at reachable marked ⊢
  refine ⟨registers.isStatic.trans kept.kind, reachable, distinct, marked, fun kind => ?_⟩
  have receives := registers.receives (spares (kept.kind.trans kind)) sound (kept.receives kind)
  exact ⟨receives.registered, receives.alone⟩

theorem Kept.foldl (kept : Kept isStatic declaringType table) (changes : List Change) :
    Kept isStatic declaringType (changes.foldl SlotTable.change table) := by
  induction changes generalizing table with
  | nil => exact kept
  | cons step rest ih => exact ih (kept.change step)

theorem entries_prefix_foldl (table : SlotTable) (changes : List Change) :
    table.entries.toList <+: (changes.foldl change table).entries.toList := by
  induction changes generalizing table with
  | nil => exact List.prefix_refl _
  | cons step rest ih =>
    obtain ⟨_, grown, _, registers, same, _⟩ := change_registers table step
    have first : table.entries.toList <+: (table.change step).entries.toList := by
      rw [same]
      exact registers.entries_prefix
    exact first.trans (ih _)

theorem Kept.coherent (kept : Kept isStatic declaringType table) : table.Coherent := by
  obtain ⟨_, reachable, distinct, marked, _⟩ := kept
  have sound := reachable.sound
  refine ⟨distinct, sound.known, ?_, ?_, ?_, ?_⟩
  · intro name
    rw [← sound.fresh_iff, contains_eq, Option.isSome_eq_false_iff, Option.isNone_iff_eq_none]
  · intro entry listed
    have ends := sound.ends listed
    have bound := table.high.toNat_lt
    simp only [slotLimit]
    omega
  · exact fun entry listed slot covers => (sound.reserved entry listed slot covers).2
  · rcases marked.attained with zero | ⟨top, listed, high⟩
    · refine .inl ⟨fun slot listed => ?_, UInt16.toNat_inj.mp zero⟩
      have lower := marked.below slot listed
      omega
    · refine .inr ⟨top, ⟨listed, fun slot also => ?_⟩, high⟩
      have lower := marked.below slot also
      rw [UInt16.le_iff_toNat_le]
      omega

/-- After any operations in any order, names, slots and the high-water mark of a table fit together, an instance
method has its receiver in the first slot, and what is registered by then stays as it is. No operation adds up slot
numbers beyond their range or cuts a run of slots short. -/
theorem history_coherent (isStatic : Bool) (declaringType : String) (changes later : List Change) :
    (history isStatic declaringType changes).Coherent ∧
      (isStatic = false → (history isStatic declaringType changes).Receives declaringType) ∧
      (history isStatic declaringType changes).Grows (history isStatic declaringType (changes ++ later)) ∧
      Checked.history isStatic declaringType changes = some (history isStatic declaringType changes) := by
  have kept : Kept isStatic declaringType (history isStatic declaringType changes) :=
    (kept_ofMethod isStatic declaringType).foldl changes
  have after : history isStatic declaringType (changes ++ later) =
      later.foldl change (history isStatic declaringType changes) := List.foldl_append
  have final := kept.foldl later
  have stays := entries_prefix_foldl (history isStatic declaringType changes) later
  rw [← after] at final stays
  refine ⟨kept.coherent, kept.receives, ⟨stays, ?_⟩, Checked.history_eq isStatic declaringType changes⟩
  intro name entry found
  obtain ⟨listed, named⟩ := (kept.reachable.sound.known name entry).mp found
  have still := stays.subset (Array.mem_toList_iff.mpr listed)
  exact (final.reachable.sound.known name entry).mpr ⟨Array.mem_toList_iff.mp still, named⟩

end SlotTable
end Bytecode
