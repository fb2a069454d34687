import Bytecode.Proofs.SlotTables

/-! Which variables share slots. New names never do; known variables and parameters are placed
where they ask to be, and may. -/

namespace Bytecode

/-- The second slot of a wide variable is the first of another. -/
def Variable.Abuts (first second : Variable) : Prop :=
  1 < first.width.toNat ∧ second.index.toNat = first.index.toNat + 1

theorem Variable.Disjoint.not_abuts {first second : Variable} (apart : first.Disjoint second)
    (filled : 0 < second.width.toNat) : ¬ first.Abuts second := by
  intro abuts
  obtain ⟨wide, next⟩ := abuts
  apply apart second.index.toNat
  · unfold Variable.Covers
    omega
  · unfold Variable.Covers
    omega

theorem SlotUse.positive {listing : Listing} {aliases : Aliases} {use : SlotUse}
    (listed : use ∈ SlotUse.ofListing listing aliases) : 0 < use.width.toNat := by
  obtain ⟨⟨line, operation⟩, _, made⟩ := List.mem_filterMap.mp listed
  cases operation with
  | «variable» opcode name =>
    cases made
    simp only
    split <;> decide
  | increment name amount =>
    cases made
    exact Nat.one_pos
  | _ => cases made

namespace SlotTable

/-- The variables known before the parameters: the receiver and the baseline. -/
def ofBaseline (isStatic : Bool) (declaringType : String) (baseline : List BaselineVariable) :
    SlotTable :=
  (ofMethod isStatic declaringType).addBaseline baseline

variable {isStatic : Bool} {declaringType : String} {baseline : List BaselineVariable}

theorem ofBaseline_registers : Registers AllowsKnown ⟨isStatic, #[], {}, {}, 0, {}⟩
    (ofBaseline isStatic declaringType baseline) :=
  (ofMethod_registers isStatic declaringType).trans (addBaseline_registers _ baseline)

theorem ofBaseline_sound : (ofBaseline isStatic declaringType baseline).Sound :=
  ofBaseline_registers.sound (sound_empty isStatic)

/-- Only the second slot of a wide variable is not looked at when it is registered. -/
theorem ofBaseline_disjoint {first second : Variable}
    (listed : first ∈ (ofBaseline isStatic declaringType baseline).entries)
    (also : second ∈ (ofBaseline isStatic declaringType baseline).entries) (different : first ≠ second) :
    first.Disjoint second ∨ first.Abuts second ∨ second.Abuts first := by
  have pair := ofBaseline_registers.pairs
    (fun first second => first.Disjoint second ∨ first.Abuts second ∨ second.Abuts first)
    (sound_empty isStatic) ?_ ?_ listed also different
  · simpa using pair
  · intro first second related
    rcases related with apart | abuts | abuts
    · exact .inl apart.symm
    · exact .inr (.inr abuts)
    · exact .inr (.inl abuts)
  · intro table entry other sound _ allowed old _
    obtain ⟨free, narrow, _⟩ := allowed
    by_cases abuts : entry.Abuts other
    · exact .inr (.inl abuts)
    · left
      intro slot covers within
      have start : ¬ other.Covers entry.index.toNat := fun taken => free (sound.reserved other old _ taken)
      unfold Variable.Covers at start covers within
      unfold Variable.Abuts at abuts
      omega

theorem addParameters_registers (table : SlotTable) (parameters : List Parameter) :
    Registers (fun _ => AllowsParameter 0) table (table.addParameters parameters) := by
  apply (addParametersFrom_registers table _ parameters).mono
  intro _ entry allowed
  exact ⟨Nat.zero_le _, allowed.2⟩

/-- The slots of differently named variables are apart, unless a wide baseline variable runs into
another one or a baseline variable lies on the slots of a parameter. -/
theorem ranges_disjoint_iff {parameters : List Parameter} {listing : Listing} {aliases : Aliases}
    {final : SlotTable}
    (allocated : ((ofBaseline isStatic declaringType baseline).addParameters parameters).allocate
      (SlotUse.ofListing listing aliases) = (final, .ok ())) :
    (∀ first ∈ final.entries, ∀ second ∈ final.entries,
        first.name ≠ second.name → first.Disjoint second) ↔
      (∀ first ∈ (ofBaseline isStatic declaringType baseline).entries,
        ∀ second ∈ (ofBaseline isStatic declaringType baseline).entries, ¬ first.Abuts second) ∧
      ∀ known ∈ (ofBaseline isStatic declaringType baseline).entries,
        ∀ parameter ∈ ((ofBaseline isStatic declaringType baseline).addParameters parameters).entries,
          parameter ∉ (ofBaseline isStatic declaringType baseline).entries → known.Disjoint parameter := by
  have base : (ofBaseline isStatic declaringType baseline).Sound := ofBaseline_sound
  have placed := addParameters_registers (ofBaseline isStatic declaringType baseline) parameters
  have middle := placed.sound base
  obtain ⟨grown, _, _⟩ := allocate_ok middle (fun use => SlotUse.positive) allocated
  have sound := grown.sound middle
  constructor
  · intro apart
    refine ⟨?_, ?_⟩
    · intro first listed second also abuts
      have filled := base.filled second also
      by_cases same : first.name = second.name
      · obtain rfl := base.unique listed also same
        unfold Variable.Abuts at abuts
        omega
      · exact (apart first (grown.kept (placed.kept listed)) second (grown.kept (placed.kept also))
          same).not_abuts filled abuts
    · intro known listed parameter also new
      apply apart known (grown.kept (placed.kept listed)) parameter (grown.kept also)
      intro same
      exact new (middle.unique (placed.kept listed) also same ▸ listed)
  · intro separate first listed second also named
    obtain ⟨apart, beside⟩ := separate
    have different : first ≠ second := fun same => named (congrArg Variable.name same)
    rcases grown.apart middle listed also different with done | ⟨left, right⟩
    · exact done
    · by_cases early : first ∈ (ofBaseline isStatic declaringType baseline).entries
      · by_cases late : second ∈ (ofBaseline isStatic declaringType baseline).entries
        · rcases ofBaseline_disjoint early late different with done | abuts | abuts
          · exact done
          · exact absurd abuts (apart first early second late)
          · exact absurd abuts (apart second late first early)
        · exact beside first early second right late
      · by_cases late : second ∈ (ofBaseline isStatic declaringType baseline).entries
        · exact (beside second late first left early).symm
        · exact addParametersFrom_apart base left right early late different

/-- A narrow variable in the second slot, and a wide one in the first two. -/
def crossedBaseline : List BaselineVariable := [⟨"a", 1, "I"⟩, ⟨"w", 0, "J"⟩]

theorem crossedBaseline_entries : (ofBaseline true "Main" crossedBaseline).entries =
    #[⟨"a", 1, 1, some "I"⟩, ⟨"w", 0, 2, some "J"⟩] := by
  have int : descriptorWidth "I" = 1 := by decide +kernel
  have long : descriptorWidth "J" = 2 := by decide +kernel
  simp [ofBaseline, ofMethod, addBaseline, crossedBaseline, addKnown, int, long, contains, insert,
    reserve, fitsSlots, slotLimit]

/-- The wide variable is registered although its second slot is taken. -/
theorem crossedBaseline_overlaps : ∃ final,
    ((ofBaseline true "Main" crossedBaseline).addParameters []).allocate
      (SlotUse.ofListing ⟨[]⟩ .empty) = (final, .ok ()) ∧
    ¬ ∀ first ∈ final.entries, ∀ second ∈ final.entries,
      first.name ≠ second.name → first.Disjoint second := by
  refine ⟨ofBaseline true "Main" crossedBaseline, rfl, ?_⟩
  rw [crossedBaseline_entries]
  intro apart
  apply apart ⟨"a", 1, 1, some "I"⟩ (by simp) ⟨"w", 0, 2, some "J"⟩ (by simp) (by simp) 1
  · exact ⟨Nat.le_refl _, Nat.lt_succ_self _⟩
  · exact ⟨Nat.zero_le _, Nat.lt_succ_self _⟩

/-- Counts on in a variable of the baseline and stores to a new one. -/
def countListing : Listing :=
  ⟨[⟨1, .operation (.increment "count" 1)⟩, ⟨2, .operation (.variable .lstore "sum")⟩]⟩

def countBaseline : List BaselineVariable := [⟨"count", 2, "I"⟩]

/-- The receiver, the variable of the baseline and the parameter. -/
def countSlots : SlotTable :=
  ((ofMethod false "Main").insert ⟨"count", 2, 1, some "I"⟩).insert ⟨"x", 1, 1, some "I"⟩

theorem countSlots_eq :
    (ofBaseline false "Main" countBaseline).addParameters [⟨"x", "I"⟩] = countSlots := by
  have int : descriptorWidth "I" = 1 := by decide +kernel
  simp [countSlots, countBaseline, ofBaseline, ofMethod, addBaseline, addKnown, addParameters,
    addParametersFrom, int, contains, insert, reserve, fitsSlots, slotLimit]

theorem countSlots_allocate : ∃ slot, countSlots.allocate (SlotUse.ofListing countListing .empty) =
    (countSlots.insert ⟨"sum", slot, 2, none⟩, .ok ()) := by
  have sound : countSlots.Sound := by
    rw [← countSlots_eq]
    exact (addParameters_registers _ _).sound ofBaseline_sound
  obtain ⟨slot, free⟩ := sound.lowestFree?_isSome 2 (by decide +kernel)
  have uses : SlotUse.ofListing countListing .empty = [⟨1, "count", 1, false⟩, ⟨2, "sum", 2, true⟩] := by
    decide +kernel
  have numbers : slotNumber? "count" = none ∧ slotNumber? "sum" = none := by decide +kernel
  have fresh : countSlots.contains "sum" = false := by
    simp [countSlots, ofMethod, contains, insert, reserve]
  refine ⟨slot, ?_⟩
  rw [uses]
  simp [allocate, numbers, fresh, SlotUse.declare, place_cons, free]
  rfl

theorem ranges_disjoint_iff_count : ∃ final,
    ((ofBaseline false "Main" countBaseline).addParameters [⟨"x", "I"⟩]).allocate
      (SlotUse.ofListing countListing .empty) = (final, .ok ()) ∧
    ((∀ first ∈ final.entries, ∀ second ∈ final.entries,
        first.name ≠ second.name → first.Disjoint second) ↔
      (∀ first ∈ (ofBaseline false "Main" countBaseline).entries,
        ∀ second ∈ (ofBaseline false "Main" countBaseline).entries, ¬ first.Abuts second) ∧
      ∀ known ∈ (ofBaseline false "Main" countBaseline).entries,
        ∀ parameter ∈ ((ofBaseline false "Main" countBaseline).addParameters [⟨"x", "I"⟩]).entries,
          parameter ∉ (ofBaseline false "Main" countBaseline).entries → known.Disjoint parameter) := by
  obtain ⟨slot, allocated⟩ := countSlots_allocate
  rw [← countSlots_eq] at allocated
  exact ⟨_, allocated, ranges_disjoint_iff allocated⟩

end SlotTable
end Bytecode
