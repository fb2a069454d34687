import Mathlib.Data.List.Nodup
import Mathlib.Data.Option.Basic
import Bytecode.Proofs.WellFormedCode

/-! The numbers of labels. A table never gives two numbers to one name, so names and numbers determine each
other; in assembled code every number has its marker, in the order of the statements, and whatever refers to a
label refers to one of them. -/

namespace Bytecode
open Verify

namespace LabelTable
variable {table : LabelTable} {listing : Listing} {name : String} {label : Label}

/-- Names in the order of their numbers. -/
def names (table : LabelTable) : List String := table.entries.map (·.name)

theorem get?_eq_none_iff : table.get? name = none ↔ name ∉ table.names := by
  rw [← Option.not_isSome_iff_eq_none, get?_isSome_iff, names, List.mem_map]

theorem register_eq_of_fresh (fresh : name ∉ table.names) (line : Nat) :
    table.register name line = ⟨table.entries ++ [⟨name, line⟩]⟩ := by
  rw [register, get?_eq_none_iff.mpr fresh]

theorem register_distinct (distinct : table.names.Nodup) (name : String) (line : Nat) :
    (table.register name line).names.Nodup := by
  cases known : table.get? name with
  | some label =>
    rw [register, known]
    exact distinct
  | none =>
    have fresh := get?_eq_none_iff.mp known
    rw [register_eq_of_fresh fresh, names, List.map_append]
    exact distinct.append (List.nodup_singleton name) (List.disjoint_singleton.mpr fresh)

theorem ofListing_distinct (listing : Listing) : (ofListing listing).names.Nodup := by
  have folded (labels : List (Nat × String)) (table : LabelTable) (distinct : table.names.Nodup) :
      (labels.foldl (fun table label => table.register label.2 label.1) table).names.Nodup := by
    induction labels generalizing table with
    | nil => exact distinct
    | cons label rest ih => exact ih _ (register_distinct distinct label.2 label.1)
  exact folded listing.labels empty List.nodup_nil

/-- Names and numbers determine each other. -/
theorem get?_eq_some_iff (distinct : table.names.Nodup) :
    table.get? name = some label ↔ table.name? label = some name := by
  refine ⟨name?_of_get?, fun known => ?_⟩
  obtain ⟨entry, stands, rfl⟩ := Option.map_eq_some_iff.mp known
  obtain ⟨inside, rfl⟩ := List.getElem?_eq_some_iff.mp stands
  refine Option.map_eq_some_iff.mpr ⟨label.id, List.findIdx?_eq_some_iff_getElem.mpr ⟨inside, by simp, ?_⟩, rfl⟩
  intro earlier before same
  apply List.nodup_iff_getElem?_ne_getElem?.mp distinct earlier label.id before (by simpa [names] using inside)
  simpa [names, inside, Nat.lt_trans before inside] using same

theorem name?_isSome_iff : (table.name? label).isSome = true ↔ label.id < table.size := by
  simp [name?, size]

/-- Where no name is declared twice, every statement takes a number. -/
theorem entries_ofListing (distinct : (listing.labels.map Prod.snd).Nodup) :
    (ofListing listing).entries = listing.labels.map fun label => ⟨label.2, label.1⟩ := by
  have folded (labels : List (Nat × String)) (table : LabelTable)
      (distinct : (table.names ++ labels.map Prod.snd).Nodup) :
      (labels.foldl (fun table label => table.register label.2 label.1) table).entries =
        table.entries ++ labels.map fun label => ⟨label.2, label.1⟩ := by
    induction labels generalizing table with
    | nil => simp
    | cons label rest ih =>
      have fresh : label.2 ∉ table.names := fun known =>
        (List.nodup_append.mp distinct).2.2 _ known _ List.mem_cons_self rfl
      rw [List.foldl_cons, register_eq_of_fresh fresh, ih]
      · simp
      · simpa [names] using distinct
  exact folded listing.labels empty distinct

end LabelTable

theorem Label.mem_of_placed {instructions : Array Instruction} {label : Label}
    (placed : label.Placed instructions) : .label label ∈ instructions := by
  obtain ⟨index, found⟩ := placed
  exact Array.mem_of_getElem? (position?_stands found)

namespace Emission
variable {tables : Tables} {listing : Listing} {emission : Emission}

/-- No two label statements of emitted code have one name. -/
theorem labels_distinct (emitted : ofListing tables listing = .ok emission) :
    (listing.labels.map Prod.snd).Nodup := by
  have marked : (listing.labels.map fun label => tables.labels.get? label.2).Nodup := by
    rw [← marks_ofListing emitted]
    exact (marked_ofListing emitted).distinct.map (Option.some_injective _)
  apply List.Nodup.of_map tables.labels.get?
  rwa [List.map_map]

/-- The markers have the numbers from 0 on, in their order. -/
theorem marks_numbered (emitted : ofListing tables listing = .ok emission)
    (known : tables.labels = .ofListing listing) :
    emission.marks = (List.range listing.labels.length).map Label.mk := by
  have entries := LabelTable.entries_ofListing (labels_distinct emitted)
  apply List.map_injective_iff.mpr (Option.some_injective Label)
  rw [marks_ofListing emitted, known]
  apply List.ext_getElem (by simp)
  intro index inside _
  have inside : index < listing.labels.length := by simpa using inside
  simp only [List.getElem_map, List.getElem_range]
  rw [LabelTable.get?_eq_some_iff (LabelTable.ofListing_distinct listing), LabelTable.name?, entries]
  simp [inside]

end Emission

/-- The labels of a listing are placed in a method, and numbered as the compilation says. -/
structure Compilation.NumbersLabels (compilation : Compilation) (method : Method) (listing : Listing) : Prop where
  distinct : (listing.labels.map Prod.snd).Nodup
  /-- The first marker is number 0, the next one number 1, up to the last label statement. -/
  markers : method.instructions.toList.filterMap Instruction.mark? =
    (List.range listing.labels.length).map Label.mk
  named : ∀ name, (compilation.tables.labels.get? name).isSome = true ↔ name ∈ listing.labels.map Prod.snd
  numbered : ∀ label, (compilation.tables.labels.name? label).isSome = true ↔ label.id < listing.labels.length
  inverse : ∀ name label, compilation.tables.labels.get? name = some label ↔
    compilation.tables.labels.name? label = some name
  declared : ∀ index line name, listing.labels[index]? = some (line, name) ↔
    compilation.tables.labels.name? ⟨index⟩ = some name ∧ compilation.tables.labels.line? ⟨index⟩ = some line
  references : ∀ instruction ∈ method.instructions, ∀ label ∈ instruction.references,
    .label label ∈ method.instructions
  ranges : ∀ range ∈ method.ranges, ∀ label ∈ [range.start, range.stop, range.handler],
    .label label ∈ method.instructions

/-- A header has the access of the first definition. -/
theorem Header.ofListing_access {listing : Listing} {aliases : Aliases} {header : Header} {line : Nat}
    {definition : Definition} (read : Header.ofListing listing aliases = .ok header)
    (first : listing.definition? = some (line, definition)) : header.access = definition.access := by
  unfold Header.ofListing at read
  rw [first] at read
  obtain ⟨_, _, read⟩ := except_bind_ok.mp read
  obtain ⟨_, _, same⟩ := except_bind_ok.mp read
  cases same
  rfl

namespace Assembler
variable {assembler : Assembler} {source : ReadListing} {assembly : Assembly} {compilation : Compilation}
  {header : Header} {slots : SlotTable} {emission : Emission}

theorem Parts.numbersLabels (parts : Parts assembler source assembly compilation header slots emission)
    (read : Header.ofListing source.listing (.ofListing source.listing) = .ok header)
    (concrete : header.isAbstract = false) :
    compilation.NumbersLabels assembly.method source.listing := by
  have distinct := Emission.labels_distinct parts.emitted
  have entries := LabelTable.entries_ofListing distinct
  have formed := Prepared.wellFormed ⟨read, concrete, parts.ranges, parts.allocated, parts.emitted⟩
  refine ⟨distinct, ?_, ?_, ?_, ?_, ?_, ?_, ?_⟩
  · rw [parts.instructions]
    exact Emission.marks_numbered parts.emitted rfl
  · intro name
    rw [parts.labels, LabelTable.get?_ofListing_isSome]
    simp
  · intro label
    rw [parts.labels, LabelTable.name?_isSome_iff, LabelTable.size, entries, List.length_map]
  · intro name label
    rw [parts.labels]
    exact LabelTable.get?_eq_some_iff (LabelTable.ofListing_distinct source.listing)
  · intro index line name
    rw [parts.labels, LabelTable.name?, LabelTable.line?, entries, List.getElem?_map]
    cases source.listing.labels[index]? with
    | none => simp
    | some label => simp [Prod.ext_iff, and_comm]
  · intro instruction listed label refers
    rw [parts.instructions] at listed ⊢
    exact Label.mem_of_placed (formed.labels instruction listed label refers)
  · intro range listed label named
    rw [parts.instructions]
    exact Label.mem_of_placed (formed.ranges range listed label named)

/-- A method with code has every label of its listing once, under the number that the tables of its compilation
give it; a listing that declares a label twice has no such method. -/
theorem labels_placed_once (assembler : Assembler) (source : ReadListing) :
    (∀ assembly, assembler.compile source = .ok assembly → assembly.method.access.isAbstract = false →
      ∃ compilation, assembly.compilation = some compilation ∧
        compilation.NumbersLabels assembly.method source.listing) ∧
    ∀ line definition, source.listing.definition? = some (line, definition) →
      definition.access.isAbstract = false → ¬ (source.listing.labels.map Prod.snd).Nodup →
        ∃ failure, assembler.compile source = .error failure := by
  constructor
  · intro assembly compiled concrete
    obtain ⟨header, read, ⟨abstract, _, bare⟩ | ⟨full, compilation, slots, emission, made, parts⟩⟩ :=
      compile_ok compiled
    · rw [bare] at concrete
      cases abstract.symm.trans concrete
    · exact ⟨compilation, made, parts.numbersLabels read full⟩
  · intro line definition first concrete twice
    cases compiled : assembler.compile source with
    | error failure => exact ⟨failure, rfl⟩
    | ok assembly =>
      obtain ⟨header, read, ⟨abstract, _, _⟩ | ⟨_, _, _, _, _, parts⟩⟩ := compile_ok compiled
      · rw [Header.isAbstract, Header.ofListing_access read first, concrete] at abstract
        cases abstract
      · exact absurd (Emission.labels_distinct parts.emitted) twice

/-- A range and a jump backwards, both to a label by an alias of it. -/
def retrying : List Entry :=
  [⟨1, .definition ⟨[.accStatic], "n", [], "V"⟩⟩, ⟨2, .alias "again" "start"⟩,
    ⟨3, .tryCatch ⟨"again", "stop", "catch", none⟩⟩, ⟨4, .label "start"⟩, ⟨5, .operation (.simple .nop)⟩,
    ⟨6, .label "stop"⟩, ⟨7, .operation (.simple .returnVoid)⟩, ⟨8, .label "catch"⟩,
    ⟨9, .operation (.simple .pop)⟩, ⟨10, .operation (.jump .goto "again")⟩]

theorem labels_placed_once_retrying :
    (∃ assembly compilation, defaults.compile ⟨⟨retrying⟩, []⟩ = .ok assembly ∧
      assembly.method.access.isAbstract = false ∧ assembly.compilation = some compilation ∧
        compilation.NumbersLabels assembly.method ⟨retrying⟩) ∧
    (¬ ((Listing.labels ⟨retrying ++ [⟨11, .label "start"⟩]⟩).map Prod.snd).Nodup ∧
      ∃ failure, defaults.compile ⟨⟨retrying ++ [⟨11, .label "start"⟩]⟩, []⟩ = .error failure) := by
  have passes : (defaults.compile ⟨⟨retrying⟩, []⟩).map (·.method.access.isAbstract) = .ok false := by
    decide +kernel
  have twice : ¬ ((Listing.labels ⟨retrying ++ [⟨11, .label "start"⟩]⟩).map Prod.snd).Nodup := by decide
  obtain ⟨assembly, compiled, concrete⟩ := map_ok.mp passes
  obtain ⟨compilation, made, numbers⟩ :=
    (labels_placed_once defaults ⟨⟨retrying⟩, []⟩).1 assembly compiled concrete
  exact ⟨⟨assembly, compilation, compiled, concrete, made, numbers⟩, twice,
    (labels_placed_once defaults ⟨⟨retrying ++ [⟨11, .label "start"⟩]⟩, []⟩).2 1 ⟨[.accStatic], "n", [], "V"⟩
      rfl (by decide) twice⟩

end Assembler
end Bytecode
