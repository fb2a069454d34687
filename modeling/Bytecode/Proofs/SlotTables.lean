import Bytecode.Slots.Table

/-! What registration keeps true of a table of slots: names find their variables, and the slots of
every variable are marked as used and lie below the high-water mark. -/

namespace Bytecode

/-- The slots that a variable stands for. -/
def Variable.Covers (entry : Variable) (slot : Nat) : Prop :=
  entry.index.toNat ≤ slot ∧ slot < entry.index.toNat + entry.width.toNat

def Variable.Disjoint (first second : Variable) : Prop :=
  ∀ slot, first.Covers slot → ¬ second.Covers slot

theorem Variable.Disjoint.symm {first second : Variable} (apart : first.Disjoint second) :
    second.Disjoint first :=
  fun slot covers within => apart slot within covers

theorem Variable.disjoint_of_le {first second : Variable}
    (below : first.index.toNat + first.width.toNat ≤ second.index.toNat) : first.Disjoint second := by
  intro slot covers within
  unfold Covers at covers within
  omega

theorem fitsSlots_iff {index width : UInt16} :
    fitsSlots index width = true ↔ index.toNat + width.toNat ≤ slotLimit := by
  simp [fitsSlots]

theorem toNat_ofNat_slot {slot : Nat} (inside : slot ≤ slotLimit) :
    (UInt16.ofNat slot).toNat = slot := by
  apply UInt16.toNat_ofNat_of_lt'
  simp only [slotLimit] at inside
  simp only [UInt16.size]
  omega

theorem toNat_max (first second : UInt16) : (max first second).toNat = max first.toNat second.toNat := by
  show (if first ≤ second then second else first).toNat = _
  split
  next lower =>
    rw [UInt16.le_iff_toNat_le] at lower
    omega
  next higher =>
    rw [UInt16.le_iff_toNat_le] at higher
    omega

namespace DeclaredName

/-- The name, as wide as a store to it asks for. -/
def widen (use : SlotUse) (name : DeclaredName) : DeclaredName :=
  if name.name == use.name then { name with width := max name.width use.width } else name

theorem widen_name (use : SlotUse) (name : DeclaredName) :
    (name.widen use).name = name.name := by
  unfold widen
  split <;> rfl

theorem le_widen (use : SlotUse) (name : DeclaredName) :
    name.width.toNat ≤ (name.widen use).width.toNat := by
  unfold widen
  split
  · exact toNat_max _ _ ▸ Nat.le_max_left ..
  · exact Nat.le_refl _

theorem use_le_widen {use : SlotUse} {name : DeclaredName} (same : name.name = use.name) :
    use.width.toNat ≤ (name.widen use).width.toNat := by
  rw [widen, if_pos (beq_iff_eq.mpr same)]
  exact toNat_max _ _ ▸ Nat.le_max_right ..

end DeclaredName

theorem descriptorWidth_cases (descriptor : String) :
    descriptorWidth descriptor = 1 ∨ descriptorWidth descriptor = 2 := by
  unfold descriptorWidth
  split
  next type _ => cases type <;> simp [FieldType.size]
  next => exact .inl rfl

theorem descriptorWidth_pos (descriptor : String) : 0 < (descriptorWidth descriptor).toNat := by
  rcases descriptorWidth_cases descriptor with narrow | wide
  · rw [narrow]
    decide
  · rw [wide]
    decide

namespace SlotTable

/-- A slot is marked as used. -/
def Taken (table : SlotTable) (slot : Nat) : Prop :=
  slot < slotLimit ∧ UInt16.ofNat slot ∈ table.occupied

theorem mem_foldl_insert {slots : List UInt16} {occupied : Std.HashSet UInt16} {slot : UInt16} :
    slot ∈ slots.foldl (fun occupied slot => occupied.insert slot) occupied ↔
      slot ∈ occupied ∨ slot ∈ slots := by
  induction slots generalizing occupied with
  | nil => simp
  | cons first rest ih =>
    rw [List.foldl_cons, ih, Std.HashSet.mem_insert, List.mem_cons, beq_iff_eq, eq_comm (a := first)]
    simp only [or_assoc, or_left_comm]

variable {table : SlotTable} {index width : UInt16} {slot : Nat}

theorem taken_reserve (fits : fitsSlots index width = true) : (table.reserve index width).Taken slot ↔
    table.Taken slot ∨ index.toNat ≤ slot ∧ slot < index.toNat + width.toNat := by
  have limit := fitsSlots_iff.mp fits
  have stop : min (index.toNat + width.toNat) slotLimit = index.toNat + width.toNat := by omega
  simp only [Taken, reserve, stop, mem_foldl_insert, List.mem_map, List.mem_range'_1]
  constructor
  · intro taken
    obtain ⟨inside, old | ⟨other, within, same⟩⟩ := taken
    · exact .inl ⟨inside, old⟩
    · have equal := congrArg UInt16.toNat same
      rw [toNat_ofNat_slot (by omega), toNat_ofNat_slot (by omega)] at equal
      right
      omega
  · intro taken
    rcases taken with ⟨inside, old⟩ | within
    · exact ⟨inside, .inl old⟩
    · exact ⟨by omega, .inr ⟨slot, by omega, rfl⟩⟩

theorem high_reserve (fits : fitsSlots index width = true) :
    (table.reserve index width).high.toNat = max table.high.toNat (index.toNat + width.toNat) := by
  have limit := fitsSlots_iff.mp fits
  have stop : min (index.toNat + width.toNat) slotLimit = index.toNat + width.toNat := by omega
  simp only [reserve, stop]
  rw [toNat_max, toNat_ofNat_slot limit]

/-- What holds of every table that registration makes. -/
structure Sound (table : SlotTable) : Prop where
  known : ∀ name entry, table.get? name = some entry ↔ entry ∈ table.entries ∧ entry.name = name
  reserved : ∀ entry ∈ table.entries, ∀ slot, entry.Covers slot → table.Taken slot
  below : ∀ slot, table.Taken slot → slot < table.high.toNat
  filled : ∀ entry ∈ table.entries, 0 < entry.width.toNat

theorem Sound.ends (sound : table.Sound) {entry : Variable} (listed : entry ∈ table.entries) :
    entry.index.toNat + entry.width.toNat ≤ table.high.toNat := by
  have positive := sound.filled entry listed
  have last : entry.Covers (entry.index.toNat + entry.width.toNat - 1) := by
    unfold Variable.Covers
    omega
  have lower := sound.below _ (sound.reserved entry listed _ last)
  omega

theorem Sound.unique (sound : table.Sound) {first second : Variable} (listed : first ∈ table.entries)
    (also : second ∈ table.entries) (same : first.name = second.name) : first = second := by
  have found := (sound.known _ first).mpr ⟨listed, rfl⟩
  have again := (sound.known _ second).mpr ⟨also, same.symm⟩
  exact Option.some.inj (found.symm.trans again)

theorem contains_eq (table : SlotTable) (name : String) : table.contains name = (table.get? name).isSome :=
  Std.HashMap.contains_eq_isSome_getElem?

theorem Sound.fresh_iff (sound : table.Sound) {name : String} :
    table.contains name = false ↔ ∀ entry ∈ table.entries, entry.name ≠ name := by
  rw [contains_eq, Option.isSome_eq_false_iff, Option.isNone_iff_eq_none]
  constructor
  · intro missing entry listed same
    have present := (sound.known name entry).mpr ⟨listed, same⟩
    rw [missing] at present
    cases present
  · intro different
    cases here : table.get? name with
    | none => rfl
    | some entry =>
      obtain ⟨listed, same⟩ := (sound.known name entry).mp here
      exact absurd same (different entry listed)

theorem sound_empty (isStatic : Bool) : (⟨isStatic, #[], {}, {}, 0, {}⟩ : SlotTable).Sound := by
  refine ⟨?_, ?_, ?_, ?_⟩
  · simp [get?]
  · simp
  · simp [Taken]
  · simp

theorem Sound.reserve (sound : table.Sound) (fits : fitsSlots index width = true) :
    (table.reserve index width).Sound := by
  refine ⟨sound.known, ?_, ?_, sound.filled⟩
  · intro entry listed slot covers
    exact (taken_reserve fits).mpr (.inl (sound.reserved entry listed slot covers))
  · intro slot taken
    rw [high_reserve fits]
    rcases (taken_reserve fits).mp taken with old | within
    · have lower := sound.below slot old
      omega
    · omega

theorem Sound.insert (sound : table.Sound) {entry : Variable}
    (fits : fitsSlots entry.index entry.width = true) (fresh : table.contains entry.name = false)
    (positive : 0 < entry.width.toNat) : (table.insert entry).Sound := by
  have reserved := sound.reserve fits
  have different := sound.fresh_iff.mp fresh
  refine ⟨?_, ?_, reserved.below, ?_⟩
  · intro name other
    have found : (table.insert entry).get? name = if entry.name = name then some entry else table.get? name := by
      simp [get?, SlotTable.insert, SlotTable.reserve, Std.HashMap.getElem?_insert]
    have listed : other ∈ (table.insert entry).entries ↔ other ∈ table.entries ∨ other = entry :=
      Array.mem_push
    rw [found, listed]
    split
    next same =>
      constructor
      · intro equal
        cases equal
        exact ⟨.inr rfl, same⟩
      · intro either
        obtain ⟨old | rfl, named⟩ := either
        · exact absurd (named.trans same.symm) (different other old)
        · rfl
    next apart =>
      rw [sound.known]
      constructor
      · intro old
        exact ⟨.inl old.1, old.2⟩
      · intro either
        obtain ⟨old | rfl, named⟩ := either
        · exact ⟨old, named⟩
        · exact absurd named apart
  · intro other listed slot covers
    rcases Array.mem_push.mp listed with old | rfl
    · exact reserved.reserved other old slot covers
    · exact (taken_reserve fits).mpr (.inr covers)
  · intro other listed
    rcases Array.mem_push.mp listed with old | rfl
    · exact sound.filled other old
    · exact positive

/-- A table grows out of another by reserving slots and by registering new names, as far as
something is allowed. -/
inductive Registers (allows : SlotTable → Variable → Prop) (before : SlotTable) : SlotTable → Prop where
  | refl : Registers allows before before
  | reserve {table : SlotTable} {index width : UInt16} (earlier : Registers allows before table)
      (fits : fitsSlots index width = true) : Registers allows before (table.reserve index width)
  | insert {table : SlotTable} {entry : Variable} (earlier : Registers allows before table)
      (fits : fitsSlots entry.index entry.width = true) (fresh : table.contains entry.name = false)
      (positive : 0 < entry.width.toNat) (allowed : allows table entry) :
      Registers allows before (table.insert entry)

namespace Registers
variable {allows : SlotTable → Variable → Prop} {before after : SlotTable}

theorem trans {middle : SlotTable} (first : Registers allows before middle)
    (second : Registers allows middle after) : Registers allows before after := by
  induction second with
  | refl => exact first
  | reserve _ fits ih => exact .reserve ih fits
  | insert _ fits fresh positive allowed ih => exact .insert ih fits fresh positive allowed

theorem sound (grown : Registers allows before after) (sound : before.Sound) : after.Sound := by
  induction grown with
  | refl => exact sound
  | reserve _ fits ih => exact ih.reserve fits
  | insert _ fits fresh positive _ ih => exact ih.insert fits fresh positive

theorem kept (grown : Registers allows before after) {entry : Variable}
    (listed : entry ∈ before.entries) : entry ∈ after.entries := by
  induction grown with
  | refl => exact listed
  | reserve _ _ ih => exact ih
  | insert _ _ _ _ _ ih => exact Array.mem_push.mpr (.inl ih)

theorem high (grown : Registers allows before after) : before.high.toNat ≤ after.high.toNat := by
  induction grown with
  | refl => exact Nat.le_refl _
  | reserve _ fits ih =>
    rw [high_reserve fits]
    omega
  | @insert table entry _ fits _ _ _ ih =>
    have raised : (table.insert entry).high.toNat = _ := high_reserve fits
    omega

/-- A relation of two variables holds of all that were not both there before, if it holds of
every new one and the ones before it. -/
theorem pairs (grown : Registers allows before after) (relation : Variable → Variable → Prop)
    (sound : before.Sound) (symmetric : ∀ first second, relation first second → relation second first)
    (step : ∀ table entry other, table.Sound → Registers allows before table → allows table entry →
      other ∈ table.entries → table.contains entry.name = false → relation entry other)
    {first second : Variable} (listed : first ∈ after.entries) (also : second ∈ after.entries)
    (different : first ≠ second) :
    relation first second ∨ first ∈ before.entries ∧ second ∈ before.entries := by
  induction grown with
  | refl => exact .inr ⟨listed, also⟩
  | reserve _ _ ih => exact ih listed also
  | insert earlier fits fresh positive allowed ih =>
    have here := earlier.sound sound
    rcases Array.mem_push.mp listed with old | rfl
    · rcases Array.mem_push.mp also with other | rfl
      · exact ih old other
      · exact .inl (symmetric _ _ (step _ _ _ here earlier allowed old fresh))
    · rcases Array.mem_push.mp also with other | rfl
      · exact .inl (step _ _ _ here earlier allowed other fresh)
      · exact absurd rfl different

theorem mono {other : SlotTable → Variable → Prop} (grown : Registers allows before after)
    (weaker : ∀ table entry, allows table entry → other table entry) : Registers other before after := by
  induction grown with
  | refl => exact .refl
  | reserve _ fits ih => exact .reserve ih fits
  | insert _ fits fresh positive allowed ih => exact .insert ih fits fresh positive (weaker _ _ allowed)

theorem new {kind : Variable → Prop} (grown : Registers allows before after)
    (step : ∀ table entry, allows table entry → kind entry) {entry : Variable}
    (listed : entry ∈ after.entries) : entry ∈ before.entries ∨ kind entry := by
  induction grown with
  | refl => exact .inl listed
  | reserve _ _ ih => exact ih listed
  | insert _ _ _ _ allowed ih =>
    rcases Array.mem_push.mp listed with old | rfl
    · exact ih old
    · exact .inr (step _ _ allowed)

end Registers

/-- What registration asks of a known variable: that its first slot is free. -/
def AllowsKnown (table : SlotTable) (entry : Variable) : Prop :=
  ¬ table.Taken entry.index.toNat ∧ entry.width.toNat ≤ 2 ∧ entry.descriptor.isSome = true

/-- What it asks of a parameter: that it follows those before it. -/
def AllowsParameter (next : Nat) (entry : Variable) : Prop :=
  next ≤ entry.index.toNat ∧ entry.descriptor.isSome = true

/-- What it asks of a new name: that all its slots are free. -/
def AllowsNew (table : SlotTable) (entry : Variable) : Prop :=
  (∀ slot, entry.Covers slot → ¬ table.Taken slot) ∧ entry.descriptor = none

/-- New names are apart from all others. -/
theorem Registers.apart {before after : SlotTable} (grown : Registers AllowsNew before after) (sound : before.Sound)
    {first second : Variable} (listed : first ∈ after.entries) (also : second ∈ after.entries)
    (different : first ≠ second) : first.Disjoint second ∨ first ∈ before.entries ∧ second ∈ before.entries := by
  refine grown.pairs Variable.Disjoint sound (fun _ _ apart => apart.symm) ?_ listed also different
  intro table entry other sound _ allowed old _ slot covers within
  exact allowed.1 slot covers (sound.reserved other old slot within)

theorem addKnown_registers (table : SlotTable) (known : BaselineVariable) :
    Registers AllowsKnown table (table.addKnown known) := by
  unfold addKnown
  simp only
  split
  next => exact .refl
  next fits =>
    split
    next => exact .refl
    next free =>
      simp only [Bool.or_eq_true, not_or, Bool.not_eq_true] at free
      refine .insert .refl (by simpa using fits) free.1 (descriptorWidth_pos _) ⟨?_, ?_, rfl⟩
      · intro taken
        have listed := taken.2
        rw [UInt16.ofNat_toNat, ← Std.HashSet.contains_iff_mem, free.2] at listed
        cases listed
      · rcases descriptorWidth_cases known.descriptor with narrow | wide
        · simp [narrow]
        · simp [wide]

theorem addBaseline_registers (table : SlotTable) (baseline : List BaselineVariable) :
    Registers AllowsKnown table (table.addBaseline baseline) := by
  unfold addBaseline
  induction baseline generalizing table with
  | nil => exact .refl
  | cons known rest ih => exact (addKnown_registers table known).trans (ih _)

theorem ofMethod_registers (isStatic : Bool) (declaringType : String) :
    Registers AllowsKnown ⟨isStatic, #[], {}, {}, 0, {}⟩ (ofMethod isStatic declaringType) := by
  unfold ofMethod
  cases isStatic with
  | true => exact .refl
  | false =>
    refine .insert .refl rfl ?_ Nat.one_pos ⟨?_, by simp, rfl⟩
    · simp [contains]
    · simp [Taken]

theorem next_toNat {next width : UInt16} (fits : fitsSlots next width = true) :
    (next + width).toNat = next.toNat + width.toNat := by
  have limit := fitsSlots_iff.mp fits
  simp only [slotLimit] at limit
  rw [UInt16.toNat_add, Nat.mod_eq_of_lt (by omega)]

theorem addParametersFrom_registers (table : SlotTable) (next : UInt16) (parameters : List Parameter) :
    Registers (fun _ => AllowsParameter next.toNat) table (table.addParametersFrom next parameters) := by
  induction parameters generalizing table next with
  | nil => exact .refl
  | cons parameter rest ih =>
    rw [addParametersFrom]
    split
    next => exact .refl
    next fits =>
      have fits : fitsSlots next (descriptorWidth parameter.descriptor) = true := by simpa using fits
      have later (table : SlotTable) : Registers (fun _ => AllowsParameter next.toNat) table
          (table.addParametersFrom (next + descriptorWidth parameter.descriptor) rest) := by
        apply (ih table _).mono
        intro _ entry allowed
        have start := allowed.1
        rw [next_toNat fits] at start
        exact ⟨by omega, allowed.2⟩
      split
      next => exact (Registers.refl.reserve fits).trans (later _)
      next fresh =>
        have fresh : table.contains parameter.name = false := by simpa using fresh
        exact (Registers.refl.insert fits fresh (descriptorWidth_pos _) ⟨Nat.le_refl _, rfl⟩).trans
          (later _)

theorem addParametersFrom_behind {table : SlotTable} {next : UInt16} {parameters : List Parameter}
    {entry : Variable} (listed : entry ∈ (table.addParametersFrom next parameters).entries)
    (new : entry ∉ table.entries) : next.toNat ≤ entry.index.toNat :=
  (((addParametersFrom_registers table next parameters).new (fun _ _ allowed => allowed)
    listed).resolve_left new).1

/-- Parameters are laid out one behind another. -/
theorem addParametersFrom_apart {table : SlotTable} {next : UInt16} {parameters : List Parameter}
    (sound : table.Sound) {first second : Variable}
    (listed : first ∈ (table.addParametersFrom next parameters).entries)
    (also : second ∈ (table.addParametersFrom next parameters).entries)
    (new : first ∉ table.entries) (newer : second ∉ table.entries) (different : first ≠ second) :
    first.Disjoint second := by
  induction parameters generalizing table next with
  | nil => exact absurd listed new
  | cons parameter rest ih =>
    rw [addParametersFrom] at listed also
    split at listed
    next => exact absurd listed new
    next fits =>
      rw [if_neg fits] at also
      have fits : fitsSlots next (descriptorWidth parameter.descriptor) = true := by simpa using fits
      have positive := descriptorWidth_pos parameter.descriptor
      obtain ⟨entry, made⟩ : ∃ entry : Variable, entry = ⟨parameter.name, next,
        descriptorWidth parameter.descriptor, some parameter.descriptor⟩ := ⟨_, rfl⟩
      rw [← made] at listed also
      split at listed
      next taken =>
        rw [if_pos taken] at also
        exact ih (sound.reserve fits) listed also new newer
      next fresh =>
        rw [if_neg fresh] at also
        have fresh : table.contains entry.name = false := by simpa [made] using fresh
        have index : entry.index = next := by rw [made]
        have width : entry.width = descriptorWidth parameter.descriptor := by rw [made]
        have fits : fitsSlots entry.index entry.width = true := by rwa [index, width]
        rw [← index, ← width] at listed also
        have inserted := sound.insert fits fresh (width ▸ positive)
        have last {other : Variable} (known : other ∈ (table.insert entry).entries)
            (outside : other ∉ table.entries) : other = entry :=
          (Array.mem_push.mp known).resolve_left outside
        have behind {other : Variable} (placed : other ∈
            ((table.insert entry).addParametersFrom (entry.index + entry.width) rest).entries)
            (apart : other ∉ (table.insert entry).entries) : entry.Disjoint other := by
          have below := addParametersFrom_behind placed apart
          rw [next_toNat fits] at below
          exact Variable.disjoint_of_le below
        by_cases known : first ∈ (table.insert entry).entries
        · obtain rfl := last known new
          exact behind also fun within => different (last within newer).symm
        · by_cases within : second ∈ (table.insert entry).entries
          · obtain rfl := last within newer
            exact (behind listed known).symm
          · exact ih inserted listed also known within

/-- The names that are stored to, each once, with a width that serves all of its stores. -/
structure Declares (uses : List SlotUse) (declared : List DeclaredName) : Prop where
  distinct : declared.Pairwise fun first second => first.name ≠ second.name
  stored : ∀ name ∈ declared, ∃ use ∈ uses, use.name = name.name ∧ use.width.toNat ≤ name.width.toNat
  serves : ∀ use ∈ uses, ∃ name ∈ declared, name.name = use.name ∧ use.width.toNat ≤ name.width.toNat

section
variable {uses : List SlotUse} {declared : List DeclaredName} {use : SlotUse}

theorem Declares.widen (before : Declares uses declared) (known : ∃ name ∈ declared, name.name = use.name) :
    Declares (uses ++ [use]) (declared.map (DeclaredName.widen use)) := by
  refine ⟨?_, ?_, ?_⟩
  · rw [List.pairwise_map]
    apply before.distinct.imp
    intro first second apart
    rwa [DeclaredName.widen_name, DeclaredName.widen_name]
  · intro name listed
    obtain ⟨old, there, rfl⟩ := List.mem_map.mp listed
    obtain ⟨other, source, same, narrow⟩ := before.stored old there
    exact ⟨other, List.mem_append_left _ source, same.trans (old.widen_name use).symm,
      Nat.le_trans narrow (old.le_widen use)⟩
  · intro other listed
    rcases List.mem_append.mp listed with old | last
    · obtain ⟨name, there, same, narrow⟩ := before.serves other old
      exact ⟨_, List.mem_map_of_mem there, (name.widen_name use).trans same,
        Nat.le_trans narrow (name.le_widen use)⟩
    · obtain rfl := List.mem_singleton.mp last
      obtain ⟨name, there, same⟩ := known
      exact ⟨_, List.mem_map_of_mem there, (name.widen_name other).trans same,
        DeclaredName.use_le_widen same⟩

theorem Declares.append (before : Declares uses declared) (unknown : ∀ name ∈ declared, name.name ≠ use.name) :
    Declares (uses ++ [use]) (declared ++ [⟨use.name, use.width, use.line⟩]) := by
  refine ⟨?_, ?_, ?_⟩
  · apply List.pairwise_append.mpr
    refine ⟨before.distinct, List.pairwise_singleton _ _, ?_⟩
    intro name listed other last
    obtain rfl := List.mem_singleton.mp last
    exact unknown name listed
  · intro name listed
    rcases List.mem_append.mp listed with old | last
    · obtain ⟨other, source, serves⟩ := before.stored name old
      exact ⟨other, List.mem_append_left _ source, serves⟩
    · obtain rfl := List.mem_singleton.mp last
      exact ⟨use, List.mem_append_right _ List.mem_cons_self, rfl, Nat.le_refl _⟩
  · intro other listed
    rcases List.mem_append.mp listed with old | last
    · obtain ⟨name, there, serves⟩ := before.serves other old
      exact ⟨name, List.mem_append_left _ there, serves⟩
    · obtain rfl := List.mem_singleton.mp last
      exact ⟨_, List.mem_append_right _ List.mem_cons_self, rfl, Nat.le_refl _⟩

theorem Declares.declare (before : Declares uses declared) (use : SlotUse) :
    Declares (uses ++ [use]) (SlotUse.declare declared use) := by
  unfold SlotUse.declare
  split
  next known =>
    obtain ⟨name, there, same⟩ := List.any_eq_true.mp known
    exact before.widen ⟨name, there, eq_of_beq same⟩
  next unknown =>
    apply before.append
    intro name listed same
    exact unknown (List.any_eq_true.mpr ⟨name, listed, beq_iff_eq.mpr same⟩)

end

theorem declares_foldl (uses : List SlotUse) : Declares uses (uses.foldl SlotUse.declare []) := by
  have all (seen : List SlotUse) (declared : List DeclaredName) (before : Declares seen declared) :
      Declares (seen ++ uses) (uses.foldl SlotUse.declare declared) := by
    induction uses generalizing seen declared with
    | nil =>
      rw [List.append_nil]
      exact before
    | cons use rest ih =>
      rw [List.foldl_cons, ← List.singleton_append, ← List.append_assoc]
      exact ih _ _ (before.declare use)
  exact all [] [] ⟨.nil, by simp, by simp⟩

private theorem find?_free {slots : List UInt16} {slot : UInt16}
    (found : slots.find? (fun slot => fitsSlots slot width && table.isFree slot width) = some slot) :
    fitsSlots slot width = true ∧
      ∀ other, slot.toNat ≤ other → other < slot.toNat + width.toNat → ¬ table.Taken other := by
  have free := List.find?_some found
  simp only [Bool.and_eq_true, isFree, List.all_eq_true, List.mem_range'_1] at free
  refine ⟨free.1, ?_⟩
  intro other low high taken
  have unmarked := free.2 other ⟨low, high⟩
  rw [Bool.not_eq_true', ← Bool.not_eq_true, Std.HashSet.contains_iff_mem] at unmarked
  exact unmarked taken.2

theorem lowestFree?_some {slot : UInt16} (found : table.lowestFree? width = some slot) :
    fitsSlots slot width = true ∧
      ∀ other, slot.toNat ≤ other → other < slot.toNat + width.toNat → ¬ table.Taken other :=
  find?_free found

theorem lowestFree?_of_free (free : table.isFree 0 width = true) :
    table.lowestFree? width = some 0 := by
  have fits : fitsSlots 0 width = true := by
    rw [fitsSlots_iff]
    have bound := width.toNat_lt
    simp [slotLimit]
    omega
  have range : List.range 65536 = 0 :: (List.range 65535).map (· + 1) := List.range_succ_eq_map
  unfold lowestFree?
  simp only [range, List.map_cons]
  exact List.find?_cons_of_pos (by rw [Bool.and_eq_true]; exact ⟨fits, free⟩)

private theorem find?_isSome_of_mem {slots : List UInt16} {slot : UInt16} (listed : slot ∈ slots)
    (fits : fitsSlots slot width = true)
    (free : ∀ other, slot.toNat ≤ other → other < slot.toNat + width.toNat → ¬ table.Taken other) :
    (slots.find? fun slot => fitsSlots slot width && table.isFree slot width).isSome = true := by
  rw [List.find?_isSome]
  refine ⟨slot, listed, ?_⟩
  simp only [Bool.and_eq_true, isFree, List.all_eq_true, List.mem_range'_1]
  refine ⟨fits, ?_⟩
  intro other within
  have limit := fitsSlots_iff.mp fits
  rw [Bool.not_eq_true', ← Bool.not_eq_true, Std.HashSet.contains_iff_mem]
  intro marked
  exact free other within.1 within.2 ⟨by omega, marked⟩

/-- There are free slots as long as there is room above the high-water mark. -/
theorem Sound.lowestFree?_isSome (sound : table.Sound) (width : UInt16)
    (room : table.high.toNat + width.toNat ≤ slotLimit) : ∃ slot, table.lowestFree? width = some slot := by
  have listed : table.high ∈ (List.range 65536).map UInt16.ofNat :=
    List.mem_map.mpr ⟨table.high.toNat, List.mem_range.mpr table.high.toNat_lt, UInt16.ofNat_toNat⟩
  have free : ∀ other, table.high.toNat ≤ other → other < table.high.toNat + width.toNat →
      ¬ table.Taken other := by
    intro other above _ taken
    have lower := sound.below other taken
    omega
  exact Option.isSome_iff_exists.mp (find?_isSome_of_mem listed (fitsSlots_iff.mpr room) free)

-- Left open, the search would be run through all slots to compare the two sides.
seal lowestFree? in
theorem place_cons (table : SlotTable) (declared : DeclaredName) (rest : List DeclaredName) :
    table.place (declared :: rest) = match table.lowestFree? declared.width with
      | some slot => (table.insert ⟨declared.name, slot, declared.width, none⟩).place rest
      | none => (table, .error (.invalidOperand declared.line (.noFreeSlot declared.name))) :=
  rfl

/-- Every declared name is given free slots of its width. -/
theorem place_ok {table final : SlotTable} {declared : List DeclaredName}
    (distinct : declared.Pairwise fun first second => first.name ≠ second.name)
    (sound : table.Sound) (fresh : ∀ name ∈ declared, table.contains name.name = false)
    (positive : ∀ name ∈ declared, 0 < name.width.toNat)
    (placed : table.place declared = (final, .ok ())) :
    Registers AllowsNew table final ∧ ∀ name ∈ declared, ∃ entry ∈ final.entries,
      entry.name = name.name ∧ entry.width = name.width := by
  induction declared generalizing table with
  | nil =>
    obtain rfl : table = final := congrArg Prod.fst placed
    exact ⟨.refl, fun _ listed => absurd listed List.not_mem_nil⟩
  | cons name rest ih =>
    rw [place_cons] at placed
    split at placed
    next slot found =>
      obtain ⟨fits, free⟩ := lowestFree?_some found
      have here := fresh name List.mem_cons_self
      have wide := positive name List.mem_cons_self
      obtain ⟨apart, others⟩ := List.pairwise_cons.mp distinct
      have first : Registers AllowsNew table (table.insert ⟨name.name, slot, name.width, none⟩) :=
        .insert .refl fits here wide ⟨fun other covers => free other covers.1 covers.2, rfl⟩
      have inserted : (table.insert ⟨name.name, slot, name.width, none⟩).Sound := sound.insert fits here wide
      have still : ∀ other ∈ rest,
          (table.insert ⟨name.name, slot, name.width, none⟩).contains other.name = false := by
        intro other listed
        rw [inserted.fresh_iff]
        intro entry known
        rcases Array.mem_push.mp known with old | rfl
        · exact sound.fresh_iff.mp (fresh other (List.mem_cons_of_mem _ listed)) entry old
        · exact apart other listed
      obtain ⟨later, given⟩ := ih others inserted still
        (fun other listed => positive other (List.mem_cons_of_mem _ listed)) placed
      refine ⟨first.trans later, ?_⟩
      intro other listed
      rcases List.mem_cons.mp listed with rfl | listed
      · exact ⟨_, later.kept (Array.mem_push.mpr (.inr rfl)), rfl, rfl⟩
      · exact given other listed
    next => cases placed

def reserveAll (table : SlotTable) (numbered : List (SlotUse × UInt16)) : SlotTable :=
  numbered.foldl (fun table pair => table.reserve pair.2 pair.1.width) table

theorem reserveAll_registers (allows : SlotTable → Variable → Prop) (table : SlotTable)
    {numbered : List (SlotUse × UInt16)}
    (fits : ∀ pair ∈ numbered, fitsSlots pair.2 pair.1.width = true) :
    Registers allows table (table.reserveAll numbered) ∧
      (∀ name, (table.reserveAll numbered).contains name = table.contains name) ∧
      ∀ pair ∈ numbered,
        pair.2.toNat + pair.1.width.toNat ≤ (table.reserveAll numbered).high.toNat := by
  induction numbered generalizing table with
  | nil => exact ⟨.refl, fun _ => rfl, fun _ listed => absurd listed List.not_mem_nil⟩
  | cons pair rest ih =>
    have here := fits pair List.mem_cons_self
    obtain ⟨grown, same, ends⟩ := ih (table.reserve pair.2 pair.1.width)
      fun pair listed => fits pair (List.mem_cons_of_mem _ listed)
    refine ⟨(Registers.refl.reserve here).trans grown, same, ?_⟩
    intro other listed
    rcases List.mem_cons.mp listed with rfl | later
    · have raised : (table.reserve other.2 other.1.width).high.toNat = _ := high_reserve here
      have above := grown.high
      rw [reserveAll, List.foldl_cons, ← reserveAll]
      omega
    · exact ends other later

/-- A successful allocation has slots for every use by number, and gives each new name free ones
that serve all of its stores. -/
theorem allocate_ok {table final : SlotTable} {uses : List SlotUse} (sound : table.Sound)
    (positive : ∀ use ∈ uses, 0 < use.width.toNat) (allocated : table.allocate uses = (final, .ok ())) :
    Registers AllowsNew table final ∧
      (∀ use ∈ uses, ∀ slot, slotNumber? use.name = some slot →
        slot.toNat + use.width.toNat ≤ final.high.toNat) ∧
      ∀ use ∈ uses, slotNumber? use.name = none → use.isStore = true → table.contains use.name = false →
        ∀ entry ∈ final.entries, entry.name = use.name → use.width.toNat ≤ entry.width.toNat := by
  unfold allocate at allocated
  extract_lets numbered fitting reserved stores at allocated
  split at allocated
  next => cases congrArg Prod.snd allocated
  next unfit =>
    have fits : ∀ pair ∈ numbered, fitsSlots pair.2 pair.1.width = true := by
      intro pair listed
      have good := List.find?_eq_none.mp unfit pair listed
      simpa using good
    have whole : fitting = numbered := by
      have kept := @List.takeWhile_append_of_pos _ _ numbered [] fits
      rw [List.takeWhile_nil, List.append_nil] at kept
      exact kept
    have folded : reserved = table.reserveAll numbered := by
      rw [← whole]
      rfl
    have marked := reserveAll_registers AllowsNew table fits
    rw [← folded] at marked
    obtain ⟨grown, same, ends⟩ := marked
    have declares := declares_foldl stores
    have stored {use : SlotUse} (listed : use ∈ stores) : use ∈ uses ∧ table.contains use.name = false := by
      have kept := List.mem_filter.mp listed
      simp only [Bool.and_eq_true, Bool.not_eq_true'] at kept
      exact ⟨kept.1, kept.2.2⟩
    have fresh : ∀ name ∈ stores.foldl SlotUse.declare [], reserved.contains name.name = false := by
      intro name listed
      obtain ⟨use, source, named, _⟩ := declares.stored name listed
      rw [← named]
      exact (same use.name).trans (stored source).2
    have filled : ∀ name ∈ stores.foldl SlotUse.declare [], 0 < name.width.toNat := by
      intro name listed
      obtain ⟨use, source, _, narrow⟩ := declares.stored name listed
      have wide := positive use (stored source).1
      omega
    obtain ⟨later, given⟩ := place_ok declares.distinct (grown.sound sound) fresh filled allocated
    refine ⟨grown.trans later, ?_, ?_⟩
    · intro use listed slot written
      have pair : (use, slot) ∈ numbered :=
        List.mem_filterMap.mpr ⟨use, listed, by simp [written]⟩
      exact Nat.le_trans (ends _ pair) later.high
    · intro use listed symbolic store unknown entry placed named
      have source : use ∈ stores := List.mem_filter.mpr ⟨listed, by simp [symbolic, store, unknown]⟩
      obtain ⟨name, declared, same_name, serves⟩ := declares.serves use source
      obtain ⟨other, also, called, wide⟩ := given name declared
      have final_sound := (grown.trans later).sound sound
      obtain rfl := final_sound.unique also placed (called.trans (same_name.trans named.symm))
      rw [wide]
      exact serves

end SlotTable
end Bytecode
