import Bytecode.Proofs.FailureSites

/-! Where instructions come from. The tables that an emission fills side by side agree with each other and
with the listing, however often a line occurs and whatever the order of the lines. -/

namespace Bytecode
open Verify ( foldlM_prefix)

namespace Origins

/-- Of the instructions of a line the table keeps the first. -/
theorem insertIfNew_foldl (entries : List Origin) (start line : Nat) (table : Std.HashMap Nat Nat) :
    ((entries.zipIdx start).foldl (fun table numbered => table.insertIfNew numbered.1.line numbered.2) table)[line]? =
      table[line]?.or ((entries.findIdx? (·.line == line)).map (· + start)) := by
  induction entries generalizing start table with
  | nil => simp
  | cons origin rest ih =>
    rw [List.zipIdx_cons, List.foldl_cons, ih, List.findIdx?_cons, Std.HashMap.getElem?_insertIfNew]
    by_cases same : origin.line = line
    · by_cases there : line ∈ table
      · simp [same, there]
      · simp [same, there]
    · simp [same, Function.comp_def, Nat.add_comm, Nat.add_left_comm]

theorem instructionAt?_eq (origins : Origins) (line : Nat) :
    origins.instructionAt? line = origins.entries.findIdx? (·.line == line) := by
  obtain ⟨⟨entries⟩⟩ := origins
  rw [instructionAt?, byLine, ← Array.foldl_toList, Array.toList_zipIdx, insertIfNew_foldl]
  simp

/-- Of the instructions of a statement the table would keep the last, but there is only one. -/
theorem insert_foldl {entries : List Origin} (distinct : (entries.map (·.entry)).Nodup) (start entry : Nat)
    (table : Std.HashMap Nat Nat) :
    ((entries.zipIdx start).foldl (fun table numbered => table.insert numbered.1.entry numbered.2) table)[entry]? =
      ((entries.findIdx? (·.entry == entry)).map (· + start)).or table[entry]? := by
  induction entries generalizing start table with
  | nil => simp
  | cons origin rest ih =>
    obtain ⟨fresh, distinct⟩ := List.nodup_cons.mp distinct
    rw [List.zipIdx_cons, List.foldl_cons, ih distinct, List.findIdx?_cons, Std.HashMap.getElem?_insert]
    by_cases same : origin.entry = entry
    · have none : rest.findIdx? (·.entry == entry) = none := by
        rw [List.findIdx?_eq_none_iff]
        intro other listed
        rw [beq_eq_false_iff_ne]
        rintro again
        exact fresh (List.mem_map.mpr ⟨other, listed, again.trans same.symm⟩)
      simp [same, none]
    · simp [same, Function.comp_def, Nat.add_comm, Nat.add_left_comm]

theorem instructionOf?_eq {origins : Origins} (distinct : (origins.entries.toList.map (·.entry)).Nodup) (entry : Nat) :
    origins.instructionOf? entry = origins.entries.findIdx? (·.entry == entry) := by
  obtain ⟨⟨entries⟩⟩ := origins
  rw [instructionOf?, byEntry, ← Array.foldl_toList, Array.toList_zipIdx, insert_foldl distinct]
  simp

end Origins

/-- The first of an array under a key. -/
theorem findIdx?_key {α : Type} {entries : Array α} {key : α → Nat} {value index : Nat} :
    entries.findIdx? (key · == value) = some index ↔
      entries[index]?.map key = some value ∧ ∀ earlier < index, entries[earlier]?.map key ≠ some value := by
  rw [Array.findIdx?_eq_some_iff_getElem]
  constructor
  · rintro ⟨inside, here, before⟩
    refine ⟨by simpa [Array.getElem?_eq_getElem inside] using here, ?_⟩
    intro earlier less
    simpa [Array.getElem?_eq_getElem (Nat.lt_trans less inside)] using before earlier less
  · rintro ⟨here, before⟩
    obtain ⟨entry, stands, same⟩ := Option.map_eq_some_iff.mp here
    obtain ⟨inside, rfl⟩ := Array.getElem?_eq_some_iff.mp stands
    refine ⟨inside, by simpa using same, ?_⟩
    intro earlier less
    simpa [Array.getElem?_eq_getElem (Nat.lt_trans less inside)] using before earlier less

namespace Listing

/-- The statements that emit, each with its place in the listing. -/
def emitting (listing : Listing) : List (Entry × Nat) := listing.entries.zipIdx.filter (·.1.statement.emits)

theorem mem_emitting {listing : Listing} {entry : Entry} {index : Nat} :
    (entry, index) ∈ listing.emitting ↔ listing.entries[index]? = some entry ∧ entry.statement.emits = true := by
  rw [emitting, List.mem_filter, List.mem_zipIdx_iff_getElem?]

theorem emitting_sorted (listing : Listing) : (listing.emitting.map Prod.snd).Pairwise (· < ·) := by
  have places : (listing.entries.zipIdx.map Prod.snd).Pairwise (· < ·) := by
    rw [List.zipIdx_map_snd]
    exact List.pairwise_lt_range'
  exact places.sublist (List.filter_sublist.map Prod.snd)

end Listing

def Origin.ofEntry (numbered : Entry × Nat) : Origin := ⟨numbered.2, numbered.1.line⟩

namespace Emission
variable {tables : Tables} {listing : Listing} {emission : Emission}

/-- The origins of the instructions are the statements that emit, in document order. -/
theorem origins_ofListing (emitted : ofListing tables listing = .ok emission) :
    emission.origins.entries.toList = listing.emitting.map .ofEntry := by
  refine foldlM_prefix (fun before emission => emission.origins.entries.toList =
    (before.filter (·.1.statement.emits)).map Origin.ofEntry) rfl ?_ emitted
  intro before numbered rest middle next _ same stepped
  rcases step_ok stepped with ⟨emits, origins⟩ | ⟨silent, rfl⟩
  · simp [origins, same, emits, Origin.ofEntry]
  · simp [same, silent]

/-- The tables of an emission agree with each other, with its records and with the listing. -/
structure Corresponds (tables : Tables) (listing : Listing) (emission : Emission) : Prop where
  size : emission.origins.size = emission.instructions.size
  emits : ∀ (index : Nat) instruction, emission.instructions[index]? = some instruction →
    ∃ entry line, emission.origins.entryOf? index = some entry ∧ emission.origins.lineOf? index = some line ∧
      tables.Emits listing ⟨entry, line⟩ instruction
  emitted : ∀ entry, (∃ index, emission.origins.entryOf? index = some entry) ↔
    ∃ stated, listing.entries[entry]? = some stated ∧ stated.statement.emits = true
  ordered : ∀ index later entry next, index < later → emission.origins.entryOf? index = some entry →
    emission.origins.entryOf? later = some next → entry < next
  inverse : ∀ entry index, emission.origins.instructionOf? entry = some index ↔
    emission.origins.entryOf? index = some entry
  silent : ∀ entry, emission.origins.instructionOf? entry = none ↔
    ∀ stated, listing.entries[entry]? = some stated → stated.statement.emits = false
  lines : ∀ index, emission.origins.lineOf? index =
    (emission.origins.entryOf? index).bind fun entry => listing.entries[entry]?.map (·.line)
  first : ∀ line index, emission.origins.instructionAt? line = some index ↔
    emission.origins.lineOf? index = some line ∧ ∀ earlier < index, emission.origins.lineOf? earlier ≠ some line
  unused : ∀ line, emission.origins.instructionAt? line = none ↔
    ∀ stated ∈ listing.entries, stated.statement.emits = true → stated.line ≠ line

section Emitted
variable (emitted : ofListing tables listing = .ok emission)
include emitted

theorem entryOf?_ofListing (index : Nat) :
    emission.origins.entryOf? index = (listing.emitting[index]?).map Prod.snd := by
  rw [Origins.entryOf?, ← Array.getElem?_toList, origins_ofListing emitted, List.getElem?_map, Option.map_map]
  rfl

theorem lineOf?_ofListing (index : Nat) :
    emission.origins.lineOf? index = (listing.emitting[index]?).map (·.1.line) := by
  rw [Origins.lineOf?, ← Array.getElem?_toList, origins_ofListing emitted, List.getElem?_map, Option.map_map]
  rfl

theorem mem_origins_ofListing (origin : Origin) : origin ∈ emission.origins.entries ↔
    ∃ stated, listing.entries[origin.entry]? = some stated ∧ stated.statement.emits = true ∧
      stated.line = origin.line := by
  rw [← Array.mem_toList_iff, origins_ofListing emitted, List.mem_map]
  constructor
  · rintro ⟨⟨stated, entry⟩, among, rfl⟩
    obtain ⟨stands, emits⟩ := Listing.mem_emitting.mp among
    exact ⟨stated, stands, emits, rfl⟩
  · rintro ⟨stated, stands, emits, same⟩
    exact ⟨(stated, origin.entry), Listing.mem_emitting.mpr ⟨stands, emits⟩, by rw [Origin.ofEntry, same]⟩

theorem entries_ofListing :
    emission.origins.entries.toList.map (·.entry) = listing.emitting.map Prod.snd := by
  rw [origins_ofListing emitted, List.map_map]
  rfl

theorem entryOf?_ordered {index later entry next : Nat} (before : index < later)
    (here : emission.origins.entryOf? index = some entry) (there : emission.origins.entryOf? later = some next) :
    entry < next := by
  rw [entryOf?_ofListing emitted, ← List.getElem?_map] at here there
  obtain ⟨inside, rfl⟩ := List.getElem?_eq_some_iff.mp here
  obtain ⟨within, rfl⟩ := List.getElem?_eq_some_iff.mp there
  exact List.pairwise_iff_getElem.mp listing.emitting_sorted _ _ inside within before

theorem instructionOf?_ofListing (entry : Nat) :
    emission.origins.instructionOf? entry = emission.origins.entries.findIdx? (·.entry == entry) := by
  apply Origins.instructionOf?_eq
  rw [entries_ofListing emitted]
  exact listing.emitting_sorted.imp Nat.ne_of_lt

/-- Whatever the lines of a listing are, each of its labels and operations emits one record, in order, and is
found from the record as the record is from it. -/
theorem corresponds_ofListing : emission.Corresponds tables listing where
  size := (traced_ofListing emitted).size
  emits index instruction found := by
    obtain ⟨origin, there, emits⟩ := (traced_ofListing emitted).emits index instruction found
    exact ⟨origin.entry, origin.line, by simp [Origins.entryOf?, there], by simp [Origins.lineOf?, there], emits⟩
  emitted entry := by
    simp only [entryOf?_ofListing emitted, Option.map_eq_some_iff, Prod.exists, exists_eq_right,
      ← Listing.mem_emitting, List.mem_iff_getElem?]
    exact exists_comm
  ordered index later entry next := entryOf?_ordered emitted
  inverse entry index := by
    rw [instructionOf?_ofListing emitted, findIdx?_key]
    refine ⟨And.left, fun here => ⟨here, ?_⟩⟩
    intro earlier before again
    exact Nat.lt_irrefl _ (entryOf?_ordered emitted before again here)
  silent entry := by
    rw [instructionOf?_ofListing emitted, Array.findIdx?_eq_none_iff]
    constructor
    · intro none stated stands
      by_contra emits
      have listed := (mem_origins_ofListing emitted ⟨entry, stated.line⟩).mpr
        ⟨stated, stands, by simpa using emits, rfl⟩
      simpa using none _ listed
    · intro silent origin listed
      obtain ⟨stated, stands, emits, _⟩ := (mem_origins_ofListing emitted origin).mp listed
      rw [beq_eq_false_iff_ne]
      rintro rfl
      cases emits.symm.trans (silent stated stands)
  lines index := by
    rw [lineOf?_ofListing emitted, entryOf?_ofListing emitted]
    cases found : listing.emitting[index]? with
    | none => rfl
    | some numbered =>
      obtain ⟨stands, _⟩ := Listing.mem_emitting.mp (List.mem_of_getElem? found)
      simp [stands]
  first line index := by
    rw [Origins.instructionAt?_eq, findIdx?_key]
    rfl
  unused line := by
    rw [Origins.instructionAt?_eq, Array.findIdx?_eq_none_iff]
    constructor
    · intro none stated listed emits same
      obtain ⟨entry, stands⟩ := List.mem_iff_getElem?.mp listed
      have among := (mem_origins_ofListing emitted ⟨entry, line⟩).mpr ⟨stated, stands, emits, same⟩
      simpa using none _ among
    · intro unused origin listed
      obtain ⟨stated, stands, emits, same⟩ := (mem_origins_ofListing emitted origin).mp listed
      rw [beq_eq_false_iff_ne, ← same]
      exact unused stated (List.mem_of_getElem? stands) emits

end Emitted

/-- Lines that go back and come again. -/
def scattered : Listing :=
  ⟨[⟨7, .label "top"⟩, ⟨7, .alias "up" "top"⟩, ⟨3, .operation (.simple .nop)⟩, ⟨7, .operation (.jump .goto "up")⟩,
    ⟨3, .throws "Failure"⟩, ⟨3, .operation (.simple .nop)⟩]⟩

def scatteredTables : Tables := ⟨.ofListing scattered, .ofMethod true "Main", .ofListing scattered⟩

theorem corresponds_ofListing_scattered : ∃ emission, ofListing scatteredTables scattered = .ok emission ∧
    emission.Corresponds scatteredTables scattered :=
  ⟨_, rfl, corresponds_ofListing rfl⟩

end Emission
end Bytecode
