import Bytecode.Proofs.Rejections
import Bytecode.Proofs.VerifiedCode

/-! Where a compilation fails. Every error is about one statement of the listing, at whose line it is
shown; only code without a single instruction leaves no line to show. -/

namespace Bytecode
open Verify (except_bind_ok except_bind_error map_error mapM_error foldlM_error foldlM_holds foldlM_prefix)

/-- A label statement gives the name a place. -/
def Listing.Places (listing : Listing) (name : String) : Prop := ∃ line, (line, name) ∈ listing.labels

/-- A statement that is chosen, where it stands and what is chosen before it. -/
theorem Listing.select_split {α : Type} {listing : Listing} {choose : Statement → Option α}
    {before after : List (Nat × α)} {line : Nat} {chosen : α}
    (split : listing.select choose = before ++ (line, chosen) :: after) :
    ∃ index statement, listing.entries[index]? = some ⟨line, statement⟩ ∧ choose statement = some chosen ∧
      ∀ entry ∈ listing.entries.take index, ∀ other, choose entry.statement = some other →
        (entry.line, other) ∈ before := by
  obtain ⟨first, second, whole, rfl, found⟩ := List.filterMap_eq_append_iff.mp split
  obtain ⟨passed, ⟨place, statement⟩, rest, rfl, none, here, _⟩ := List.filterMap_eq_cons_iff.mp found
  obtain ⟨value, picked, same⟩ := Option.map_eq_some_iff.mp here
  obtain ⟨rfl, rfl⟩ := Prod.mk.inj same
  have whole : listing.entries = (first ++ passed) ++ ⟨place, statement⟩ :: rest := by simpa using whole
  refine ⟨(first ++ passed).length, statement, by simp [whole], picked, ?_⟩
  rw [whole, List.take_left]
  intro entry listed other found
  have numbered : (choose entry.statement).map (fun chosen => (entry.line, chosen)) = some (entry.line, other) := by
    rw [found, Option.map_some]
  rcases List.mem_append.mp listed with early | late
  · exact List.mem_filterMap.mpr ⟨entry, early, numbered⟩
  · cases (none entry late).symm.trans numbered

namespace SlotUse
variable {listing : Listing} {aliases : Aliases}

/-- A use is that of an operation, on the line of the operation. -/
theorem of_mem_ofListing {use : SlotUse} (listed : use ∈ ofListing listing aliases) :
    ∃ (index : Nat) (operation : Operation), listing.entries[index]? = some ⟨use.line, .operation operation⟩ ∧
      ofOperation? aliases use.line operation = some use := by
  obtain ⟨⟨line, operation⟩, chosen, used⟩ := List.mem_filterMap.mp listed
  obtain ⟨⟨there, statement⟩, among, same⟩ := List.mem_filterMap.mp chosen
  obtain ⟨index, stands⟩ := List.mem_iff_getElem?.mp among
  have placed : use.line = line := by
    cases operation <;> cases used <;> rfl
  cases statement with
  | operation body =>
    cases same
    exact ⟨index, operation, placed ▸ stands, placed ▸ used⟩
  | _ => cases same

end SlotUse

/-- What stands before a numbered entry. -/
theorem zipIdx_split {α : Type} {entries : List α} {before after : List (α × Nat)} {entry : α} {index : Nat}
    (split : entries.zipIdx = before ++ (entry, index) :: after) :
    entries[index]? = some entry ∧ before.map Prod.fst = entries.take index := by
  have stands : entries.zipIdx[before.length]? = some (entry, index) := by simp [split]
  rw [List.getElem?_zipIdx, Option.map_eq_some_iff] at stands
  obtain ⟨value, there, same⟩ := stands
  obtain ⟨rfl, rfl⟩ := Prod.mk.inj same
  have whole : entries = before.map Prod.fst ++ value :: after.map Prod.fst := by
    rw [← List.zipIdx_map_fst 0 entries, split]
    simp
  refine ⟨by simpa using there, ?_⟩
  conv => rhs; rw [whole]
  simp

namespace Emission
variable {tables : Tables} {listing : Listing} {before after emission : Emission}

/-- A statement adds its record with its origin, or nothing. -/
theorem step_ok {entry : Entry} {index : Nat} (stepped : before.step tables entry index = .ok after) :
    entry.statement.emits = true ∧ after.origins = ⟨before.origins.entries.push ⟨index, entry.line⟩⟩ ∨
      entry.statement.emits = false ∧ after = before := by
  obtain ⟨line, statement⟩ := entry
  unfold Emission.step at stepped
  cases statement with
  | label name =>
    simp only [Emission.place] at stepped
    split at stepped
    next => cases stepped
    next =>
      split at stepped
      next => cases stepped
      next =>
        cases stepped
        exact .inl ⟨rfl, rfl⟩
  | operation operation =>
    obtain ⟨instruction, _, same⟩ := except_bind_ok.mp stepped
    cases same
    exact .inl ⟨rfl, rfl⟩
  | _ =>
    cases stepped
    exact .inr ⟨rfl, rfl⟩

/-- Each origin is as far in the code as there are statements before it that emit. -/
structure Counted (entries : List Entry) (before : List Entry) (emission : Emission) : Prop where
  size : emission.origins.entries.size = before.countP (·.statement.emits)
  origin : ∀ index origin, emission.origins.entries[index]? = some origin →
    (entries.take origin.entry).countP (·.statement.emits) = index

theorem counted_ofListing (emitted : ofListing tables listing = .ok emission) :
    Counted listing.entries listing.entries emission := by
  have counted : Counted listing.entries (listing.entries.zipIdx.map Prod.fst) emission := by
    refine foldlM_prefix (fun before emission => Counted listing.entries (before.map Prod.fst) emission)
      ⟨rfl, by simp [Emission.empty]⟩ ?_ emitted
    intro before numbered rest middle next split counted stepped
    obtain ⟨entry, index⟩ := numbered
    obtain ⟨_, passed⟩ := zipIdx_split split
    rcases step_ok stepped with ⟨emits, origins⟩ | ⟨silent, rfl⟩
    · refine ⟨by simp [origins, counted.size, emits], ?_⟩
      intro place origin there
      rw [origins, Array.getElem?_push] at there
      split at there
      next last =>
        cases there
        rw [← passed, ← counted.size, last]
      next => exact counted.origin place origin there
    · exact ⟨by simp [counted.size, silent], counted.origin⟩
  rwa [List.zipIdx_map_fst] at counted

/-- Emission fails at an operation that does not compile, or at a label that is placed already. -/
theorem ofListing_error {failure : CompileError} (labels : tables.labels = .ofListing listing)
    (failed : ofListing tables listing = .error failure) :
    ∃ (index line : Nat),
      (∃ operation : Operation, listing.entries[index]? = some ⟨line, .operation operation⟩ ∧
        operation.compile (tables.scope line) = .error failure) ∨
      ∃ name firstLine, listing.entries[index]? = some ⟨line, .label name⟩ ∧
        ⟨firstLine, .label name⟩ ∈ listing.entries.take index ∧ failure = .duplicateLabel name line firstLine := by
  obtain ⟨before, ⟨⟨line, statement⟩, index⟩, after, middle, split, folded, fails⟩ := foldlM_error failed
  obtain ⟨stands, passed⟩ := zipIdx_split split
  refine ⟨index, line, ?_⟩
  unfold step at fails
  cases statement with
  | label name =>
    right
    -- a label that is placed by now has a statement of its name among those passed
    have placed : ∀ pair ∈ middle.placed, ∃ name, ⟨pair.2, .label name⟩ ∈ listing.entries.take index ∧
        tables.labels.get? name = some pair.1 := by
      refine foldlM_holds (fun emission => ∀ pair ∈ emission.placed, ∃ name,
        ⟨pair.2, .label name⟩ ∈ listing.entries.take index ∧ tables.labels.get? name = some pair.1)
        (by simp [empty]) ?_ folded
      intro early numbered late among placed stepped
      obtain ⟨⟨line, statement⟩, place⟩ := numbered
      rcases step_marks stepped with ⟨name, mark, same, known, _, _, more⟩ | ⟨_, _, same⟩
      · rw [more]
        refine List.forall_mem_cons.mpr ⟨⟨name, ?_, known⟩, placed⟩
        rw [← passed, ← same]
        exact List.mem_map_of_mem among
      · rwa [same]
    simp only [place] at fails
    split at fails
    next missing =>
      -- the table is made of the label statements, this one among them
      have listed : (line, name) ∈ listing.labels :=
        List.mem_filterMap.mpr ⟨_, List.mem_of_getElem? stands, rfl⟩
      have known := LabelTable.get?_ofListing_isSome.mpr ⟨line, listed⟩
      rw [← labels, missing] at known
      cases known
    next label known =>
      split at fails
      next firstLine there =>
        cases fails
        obtain ⟨_, _, whole, _⟩ := List.lookup_eq_some_iff.mp there
        obtain ⟨other, earlier, also⟩ := placed (label, firstLine) (by simp [whole])
        cases LabelTable.get?_inj known also
        exact ⟨name, firstLine, stands, earlier, rfl⟩
      next => cases fails
  | operation operation =>
    left
    rcases except_bind_error.mp fails with refused | ⟨_, _, impossible⟩
    · exact ⟨operation, stands, refused⟩
    · cases impossible
  | _ => cases fails

end Emission
theorem CompileError.OfOperand.line? {line : Nat} {failure : CompileError} (about : OfOperand line failure) :
    failure.line? = some line := by
  cases about <;> rfl

namespace Verify
open Rejection (OfAnalysis)

/-- An analysis rejects a method at one of its instructions, unless there is none. -/
theorem Rejection.OfAnalysis.inside {method : Method} {rejection : Rejection} (rejected : rejection.OfAnalysis method) :
    rejection.index < method.instructions.size ∨
      method.instructions = #[] ∧ rejection = ⟨0, .fallsOffEnd⟩ := by
  have some_code (code : method.instructions ≠ #[]) : 0 < method.instructions.size :=
    Array.size_pos_iff.mpr code
  cases rejected with
  | setting early =>
    cases early with
    | noCode empty => exact .inr ⟨empty, rfl⟩
    | descriptor code | range code | argument code => exact .inl (some_code code)
    | operand stands => exact .inl (Array.getElem?_eq_some_iff.mp stands).1
    | inverted _ starts => exact .inl (position?_inside starts)
  | visit stands => exact .inl (Array.getElem?_eq_some_iff.mp stands).1
  | limit inside => exact .inl inside

end Verify

namespace Assembler
variable {assembler : Assembler} {source : ReadListing} {listing : Listing} {failure : CompileError}

/-- What an error of a compilation is about: the statement at an index of the listing, on its line. -/
inductive Blames (assembler : Assembler) (listing : Listing) (index line : Nat) : Statement → CompileError → Prop where
  | header {definition cause}
    (first : ∀ entry ∈ listing.entries.take index, entry.statement.definition? = none)
    (failed : Header.ofListing listing (.ofListing listing) = .error (.descriptor line cause)) :
    Blames assembler listing index line (.definition definition) (.descriptor line cause)
  | range {range : TryCatch} {known site name rest}
    (first : ∀ entry ∈ listing.entries.take index, ∀ earlier, entry.statement.tryCatch? = some earlier →
      ∀ named ∈ earlier.sites (.ofListing listing), listing.Places named.2)
    (sites : range.sites (.ofListing listing) = known ++ (site, name) :: rest)
    (placed : ∀ named ∈ known, listing.Places named.2) (missing : ¬ listing.Places name) :
    Blames assembler listing index line (.tryCatch range) (.unresolvedLabel site name line)
  | slot {operation use slot} (uses : SlotUse.ofOperation? (.ofListing listing) line operation = some use)
    (numbered : slotNumber? use.name = some slot) (outside : fitsSlots slot use.width = false) :
    Blames assembler listing index line (.operation operation) (.invalidOperand line (.slotOutOfRange slot use.width))
  | store {header operation use} (read : Header.ofListing listing (.ofListing listing) = .ok header)
    (uses : SlotUse.ofOperation? (.ofListing listing) line operation = some use)
    (symbolic : slotNumber? use.name = none) (stores : use.isStore = true)
    (unknown : (assembler.initialSlots header).contains use.name = false) :
    Blames assembler listing index line (.operation operation) (.invalidOperand line (.noFreeSlot use.name))
  | operand {header slots operation failure} (read : Header.ofListing listing (.ofListing listing) = .ok header)
    (allocated : (assembler.initialSlots header).allocate (SlotUse.ofListing listing (.ofListing listing)) =
      (slots, .ok ()))
    (refused : Operation.compile (Tables.scope ⟨.ofListing listing, slots, .ofListing listing⟩ line) operation =
      .error failure) :
    Blames assembler listing index line (.operation operation) failure
  | label {name firstLine} (first : ⟨firstLine, .label name⟩ ∈ listing.entries.take index) :
    Blames assembler listing index line (.label name) (.duplicateLabel name line firstLine)
  | verification {header ranges slots emission rejection statement instruction}
    (prepared : assembler.Prepared listing header ranges slots emission)
    (refused : assembler.verifier.analyze (assembler.assemble header ranges slots emission) = .error rejection)
    (stands : emission.instructions[rejection.index]? = some instruction)
    (counts : (listing.entries.take index).countP (·.statement.emits) = rejection.index)
    (emits : Tables.Emits ⟨.ofListing listing, slots, .ofListing listing⟩ listing ⟨index, line⟩ instruction) :
    Blames assembler listing index line statement
      (.verification rejection.index (some line) (some instruction) rejection.violation)

/-- A statement of the listing is to blame, and the error is shown at its line. -/
def Located (assembler : Assembler) (listing : Listing) (failure : CompileError) : Prop :=
  ∃ index line statement, listing.entries[index]? = some ⟨line, statement⟩ ∧ failure.line? = some line ∧
    assembler.Blames listing index line statement failure

/-- Verification complains of code that has no instruction. -/
structure Bodiless (listing : Listing) (failure : CompileError) : Prop where
  silent : ∀ entry ∈ listing.entries, entry.statement.emits = false
  failure : failure = .verification 0 none none .fallsOffEnd

theorem Prepared.located {header : Header} {ranges : List ExceptionRange} {slots : SlotTable} {emission : Emission}
    (prepared : assembler.Prepared listing header ranges slots emission) {rejection : Verify.Rejection}
    (refused : assembler.verifier.analyze (assembler.assemble header ranges slots emission) = .error rejection) :
    assembler.Located listing (rejected (assembler.assemble header ranges slots emission) emission.origins rejection) ∨
      Bodiless listing (rejected (assembler.assemble header ranges slots emission) emission.origins rejection) := by
  have traced := Emission.traced_ofListing prepared.emitted
  have counted := Emission.counted_ofListing prepared.emitted
  rcases (Verify.Verifier.analyze_raises _ _ rejection refused).inside with inside | ⟨empty, rfl⟩
  · left
    obtain ⟨instruction, stands⟩ : ∃ instruction, emission.instructions[rejection.index]? = some instruction :=
      ⟨_, Array.getElem?_eq_getElem inside⟩
    obtain ⟨⟨index, line⟩, origin, emits⟩ := traced.emits _ _ stands
    have shown : rejected (assembler.assemble header ranges slots emission) emission.origins rejection =
        .verification rejection.index (some line) (some instruction) rejection.violation := by
      rw [rejected, Origins.lineOf?, origin, assemble, stands]
      rfl
    rw [shown]
    have blames (statement : Statement) : assembler.Blames listing index line statement
        (.verification rejection.index (some line) (some instruction) rejection.violation) :=
      .verification prepared refused stands (counted.origin _ _ origin) emits
    cases emits with
    | label there => exact ⟨index, line, _, there, rfl, blames _⟩
    | operation there => exact ⟨index, line, _, there, rfl, blames _⟩
  · right
    have bare : emission.instructions = #[] := empty
    have none : emission.origins.entries.size = 0 := by rw [traced.size, bare]; rfl
    refine ⟨?_, ?_⟩
    · intro entry listed
      have silent := List.countP_eq_zero.mp (counted.size.symm.trans none) entry listed
      simpa using silent
    · have gone : emission.origins.entries = #[] := Array.size_eq_zero_iff.mp none
      rw [rejected, Origins.lineOf?, gone, assemble, bare]
      rfl

theorem Stops.located (defined : listing.definition?.isSome = true) (stops : assembler.Stops listing failure) :
    assembler.Located listing failure ∨ Bodiless listing failure := by
  cases stops with
  | header failed =>
    left
    obtain ⟨⟨line, definition⟩, first⟩ := Option.isSome_iff_exists.mp defined
    obtain ⟨cause, rfl⟩ := Header.ofListing_error first failed
    obtain ⟨rest, listed⟩ := List.head?_eq_some_iff.mp first
    have alone : listing.select Statement.definition? = [] ++ (line, definition) :: rest := listed
    obtain ⟨index, statement, stands, chosen, none⟩ := Listing.select_split alone
    cases statement with
    | definition header =>
      refine ⟨index, line, _, stands, rfl, .header ?_ failed⟩
      intro entry before
      rw [Option.eq_none_iff_forall_ne_some]
      exact fun other found => absurd (none entry before other found) List.not_mem_nil
    | _ => cases chosen
  | ranges failed =>
    left
    obtain ⟨before, ⟨line, range⟩, after, listed, through, fails⟩ := mapM_error failed
    obtain ⟨index, statement, stands, chosen, first⟩ := Listing.select_split listed
    obtain ⟨known, site, name, rest, sites, placed, missing, rfl⟩ := ExceptionRange.ofTryCatch_error fails
    have places {name : String} : ((LabelTable.ofListing listing).get? name).isSome = true ↔ listing.Places name :=
      LabelTable.get?_ofListing_isSome
    cases statement with
    | tryCatch written =>
      cases chosen
      refine ⟨index, line, _, stands, rfl, .range ?_ sites ?_ ?_⟩
      · intro entry early earlier written named listed
        obtain ⟨_, found⟩ := through _ (first entry early earlier written)
        obtain ⟨starts, stops, handles⟩ := ExceptionRange.ofTryCatch_ok found
        rw [← places]
        simp only [TryCatch.sites, List.mem_cons, List.not_mem_nil, or_false] at listed
        rcases listed with rfl | rfl | rfl
        · rw [starts]; rfl
        · rw [stops]; rfl
        · rw [handles]; rfl
      · exact fun named listed => places.mp (placed named listed)
      · rw [← places, missing]
        exact Bool.false_ne_true
    | _ => cases chosen
  | slots read failed =>
    left
    rcases SlotTable.allocate_error failed with
      ⟨use, listed, slot, numbered, outside, rfl⟩ | ⟨use, listed, symbolic, stores, unknown, rfl⟩
    · obtain ⟨index, operation, stands, uses⟩ := SlotUse.of_mem_ofListing listed
      exact ⟨index, _, _, stands, rfl, .slot uses numbered outside⟩
    · obtain ⟨index, operation, stands, uses⟩ := SlotUse.of_mem_ofListing listed
      exact ⟨index, _, _, stands, rfl, .store read uses symbolic stores unknown⟩
  | code read allocated failed =>
    left
    obtain ⟨index, line, ⟨operation, stands, refused⟩ | ⟨name, firstLine, stands, first, rfl⟩⟩ :=
      Emission.ofListing_error rfl failed
    · exact ⟨index, line, _, stands, (operation.compile_raises _ _ refused).line?, .operand read allocated refused⟩
    · exact ⟨index, line, _, stands, rfl, .label first⟩
  | verification prepared refused => exact prepared.located refused

/-- Where a listing that has a definition and was read without problems fails to compile, the error is
shown at the statement that is to blame; only code without an instruction has none to show. -/
theorem compile_failure_located (sound : source.problems = [])
    (defined : source.listing.definition?.isSome = true) (failed : assembler.compile source = .error failure) :
    assembler.Located source.listing failure ∨ Bodiless source.listing failure := by
  rcases compile_error failed with ⟨_, _, problems, _⟩ | ⟨_, stops⟩
  · cases sound.symm.trans problems
  · exact stops.located defined

/-- A method that pops what is not there. -/
def popping : ReadListing := short [.accStatic] [.pop, .returnVoid]

def popped : CompileError := .verification 0 (some 2) (some (.simple .pop)) .stackUnderflow

theorem popping_compile : defaults.compile popping = .error popped := by
  have failed : (defaults.compile popping).map (fun _ => ()) = .error popped := by decide +kernel
  exact map_error.mp failed

theorem compile_failure_located_popping : popping.problems = [] ∧
    popping.listing.definition?.isSome = true ∧ defaults.compile popping = .error popped ∧
      (defaults.Located popping.listing popped ∨ Bodiless popping.listing popped) :=
  ⟨rfl, rfl, popping_compile, compile_failure_located rfl rfl popping_compile⟩

end Assembler
end Bytecode
