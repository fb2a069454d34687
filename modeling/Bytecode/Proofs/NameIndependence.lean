import Bytecode.Proofs.RenamedSlots
import Bytecode.Proofs.Substitution
import Mathlib.Logic.Equiv.Basic

/-! What a name means. Labels are told apart by their names and so are variables, and that is all: with
new names throughout, a listing compiles to the same code, or fails for the same reason. -/

namespace Bytecode
open Verify (except_map_bind)

/-- A method with new names for its variables. -/
def Method.rename (rename : String → String) (method : Method) : Method :=
  { method with variableTable := method.variableTable.map (List.map (LocalVariable.rename rename)) }

def Assembly.shown (assembly : Assembly) : Method × Option (Array (Option Verify.Frame)) :=
  (assembly.method, assembly.frames)

namespace Outcome
variable {names : NewNames}

/-- The outcome with new names, in its errors and in its variable table. -/
def rename (names : NewNames) (outcome : Outcome) : Outcome :=
  (outcome.mapError (CompileError.rename names)).map fun (method, frames) => (method.rename names.locals, frames)

theorem rename_bind {α : Type} {first : Except CompileError α} {next : α → Outcome} :
    Outcome.rename names (first >>= next) =
      first.mapError (CompileError.rename names) >>= fun value => Outcome.rename names (next value) := by
  cases first <;> rfl

/-- Labels have no names in a method. -/
theorem rename_labels (rename : String → String) (outcome : Outcome) :
    outcome.rename ⟨rename, id⟩ = outcome.mapError (CompileError.rename ⟨rename, id⟩) := by
  have method (method : Method) : method.rename id = method := by
    have rows : List.map (LocalVariable.rename id) = id := funext fun rows => List.map_id rows
    rw [Method.rename, rows, Option.map_id]
    rfl
  cases outcome with
  | error failure => rfl
  | ok shown => exact congrArg (fun method => Except.ok (method, shown.2)) (method shown.1)

end Outcome

namespace Assembler
variable {assembler : Assembler} {names : NewNames}

/-- Names with a meaning of their own stay: those of the receiver, of the parameters and of the baseline,
and all numbers, which no other name can then become without a clash. -/
structure Keeps (assembler : Assembler) (listing : Listing) (rename : String → String) : Prop where
  receiver : rename "this" = "this"
  parameters : ∀ line definition, listing.definition? = some (line, definition) →
    ∀ parameter ∈ definition.parameters, rename parameter.name = parameter.name
  baseline : ∀ known ∈ assembler.baseline, rename known.name = known.name
  numbers : ∀ name, (slotNumber? name).isSome = true → rename name = name

theorem conclude_rename {tables other : Tables} (header : Header) (ranges : List ExceptionRange) (emission : Emission)
    (renamed : tables.slots.Renamed names.locals other.slots) (distinct : Function.Injective names.locals)
    (shared : tables.slots.SharedFixed names.locals) :
    (assembler.conclude header ranges other emission).map Assembly.shown =
      Outcome.rename names ((assembler.conclude header ranges tables emission).map Assembly.shown) := by
  have assembled : assembler.assemble header ranges other.slots emission =
      assembler.assemble header ranges tables.slots emission := by
    rw [assemble, assemble, renamed.high]
  have rows (slots others : SlotTable) (same : slots.Renamed names.locals others)
      (entries : slots.entries = tables.slots.entries) (instructions : List Instruction) :
      others.localVariables instructions =
        (slots.localVariables instructions).map (LocalVariable.rename names.locals) :=
    same.localVariables (by rw [SlotTable.SharedFixed, entries]; exact shared) instructions
  have finished (slots others : SlotTable) (same : slots.Renamed names.locals others)
      (entries : slots.entries = tables.slots.entries) (method : Method) :
      assembler.withTable method others = (assembler.withTable method slots).rename names.locals := by
    unfold withTable Method.rename
    split
    next => rw [rows slots others same entries]; rfl
    next => rfl
  unfold conclude
  simp only [assembled]
  split
  next =>
    cases assembler.verifier.analyze (assembler.assemble header ranges tables.slots emission) with
    | error rejection => rfl
    | ok frames =>
      have table := finished _ _ (renamed.inferRanges distinct frames.toList) rfl
        (assembler.assemble header ranges tables.slots emission)
      exact congrArg (fun method => Except.ok (method, some frames)) table
  next =>
    have table := finished _ _ renamed rfl (assembler.assemble header ranges tables.slots emission)
    exact congrArg (fun method => Except.ok (method, none)) table

/-- New names tell apart what the old ones told apart, and those with a meaning of their own stay. -/
structure Suits (assembler : Assembler) (listing : Listing) (names : NewNames) : Prop where
  labels : Function.Injective names.labels
  locals : Function.Injective names.locals
  keeps : assembler.Keeps listing names.locals

variable {listing : Listing}

theorem compileCode_rename (suits : assembler.Suits listing names) {aliases : Aliases}
    (plain : ∀ name, aliases.resolve name = name) {header : Header}
    (read : Header.ofListing listing aliases = .ok header) :
    (assembler.compileCode (listing.rename names) aliases header).map Assembly.shown =
      Outcome.rename names ((assembler.compileCode listing aliases header).map Assembly.shown) := by
  obtain ⟨labels, locals, receiver, parameters, baseline, numbers⟩ := suits
  have number := slotNumber?_rename locals numbers
  have known (name : String) : (LabelTable.ofListing (listing.rename names)).get? (names.labels name) =
      (LabelTable.ofListing listing).get? name := by
    rw [LabelTable.ofListing_rename labels, LabelTable.get?_rename labels]
  have initial : (assembler.initialSlots header).Renamed names.locals (assembler.initialSlots header) := by
    apply initialSlots_renamed locals receiver baseline
    obtain ⟨line, definition, found, written, _⟩ := Header.ofListing_ok read
    intro parameter listed
    obtain ⟨other, among, same⟩ := written parameter listed
    rw [← same]
    exact parameters line definition found other among
  have allocated := initial.allocate locals number (SlotUse.ofListing listing aliases)
  rw [compileCode_eq, compileCode_eq, ExceptionRange.ofListing_rename plain known, SlotUse.ofListing_rename plain,
    except_map_bind, except_map_bind, Outcome.rename_bind]
  refine bind_congr fun ranges => ?_
  -- the two allocations start from the same table: their uses alone have new names
  cases taken : (assembler.initialSlots header).allocate (SlotUse.ofListing listing aliases) with
  | mk slots outcome =>
  cases also : (assembler.initialSlots header).allocate
    ((SlotUse.ofListing listing aliases).map (SlotUse.rename names.locals)) with
  | mk others result =>
  rw [taken, also] at allocated
  obtain ⟨renamed, alike⟩ := allocated
  cases outcome with
  | error failure =>
    cases alike
    rfl
  | ok =>
    cases alike
    obtain ⟨grown, _, _⟩ := SlotTable.allocate_ok (initialSlots_sound header) (fun use => SlotUse.positive) taken
    have shared := initial.shared (initialSlots_sound header) grown
    have tables : Tables.Renamed names ⟨.ofListing listing, slots, aliases⟩
        ⟨.ofListing (listing.rename names), others, aliases⟩ := ⟨plain, rfl, known, renamed.slot number⟩
    change (Emission.ofListing _ (listing.rename names) >>= assembler.conclude header ranges _).map Assembly.shown =
      Outcome.rename names ((Emission.ofListing _ listing >>= assembler.conclude header ranges _).map Assembly.shown)
    rw [Emission.ofListing_rename tables, except_map_bind, except_map_bind, Outcome.rename_bind]
    exact bind_congr fun emission => conclude_rename header ranges emission renamed locals shared

theorem outcome_rename (source : ReadListing) (plain : source.listing.aliases = [])
    (suits : assembler.Suits source.listing names) :
    assembler.outcome (source.rename names) = (assembler.outcome source).rename names := by
  obtain ⟨listing, problems⟩ := source
  have resolve (name : String) : (Aliases.ofListing listing).resolve name = name := by
    rw [Aliases.ofListing, plain]
    rfl
  change (assembler.compile ⟨listing.rename names, problems⟩).map Assembly.shown =
    Outcome.rename names ((assembler.compile ⟨listing, problems⟩).map Assembly.shown)
  cases problems with
  | cons first rest =>
    rw [compile_problems, compile_problems]
    rfl
  | nil =>
    rw [compile_eq, compile_eq, Aliases.ofListing_rename, Header.ofListing_rename, except_map_bind, except_map_bind,
      Outcome.rename_bind]
    cases read : Header.ofListing listing (.ofListing listing) with
    | error failure => rfl
    | ok header =>
      change (if header.isAbstract then _ else _ : Except CompileError Assembly).map Assembly.shown =
        Outcome.rename names ((if header.isAbstract then _ else _ : Except CompileError Assembly).map Assembly.shown)
      split
      next => rfl
      next => exact compileCode_rename suits resolve read

/-- A listing without aliases may be given new names. With others for its labels it compiles to the same method
with the same frames; with others for its variables to the same but for the names in the variable table. Where it
does not compile, it fails with the same error under the new name. -/
theorem outcome_renamed (assembler : Assembler) (source : ReadListing) (plain : source.listing.aliases = []) :
    (∀ rename : String → String, Function.Injective rename →
      assembler.outcome (source.rename ⟨rename, id⟩) =
        (assembler.outcome source).mapError (CompileError.rename ⟨rename, id⟩)) ∧
    ∀ rename : String → String, Function.Injective rename → assembler.Keeps source.listing rename →
      assembler.outcome (source.rename ⟨id, rename⟩) =
        ((assembler.outcome source).mapError (CompileError.rename ⟨id, rename⟩)).map fun (method, frames) =>
          (method.rename rename, frames) := by
  constructor
  · intro rename distinct
    rw [← Outcome.rename_labels]
    have keeps : assembler.Keeps source.listing id :=
      ⟨rfl, fun _ _ _ _ _ => rfl, fun _ _ => rfl, fun _ _ => rfl⟩
    exact outcome_rename source plain ⟨distinct, Function.injective_id, keeps⟩
  · intro rename distinct keeps
    exact outcome_rename source plain ⟨Function.injective_id, distinct, keeps⟩

/-- Copies its parameter to a variable and counts that up. -/
def tally : ReadListing :=
  ⟨⟨[⟨1, .definition ⟨[.accStatic], "tally", [⟨"x", "I"⟩], "V"⟩⟩, ⟨2, .operation (.variable .iload "x")⟩,
    ⟨3, .operation (.variable .istore "i")⟩, ⟨4, .operation (.increment "i" 1)⟩,
    ⟨5, .operation (.jump .goto "out")⟩, ⟨6, .label "out"⟩, ⟨7, .operation (.simple .returnVoid)⟩]⟩, []⟩

theorem tally_keeps : defaults.Keeps tally.listing (Equiv.swap "i" "j") := by
  have other {name : String} (first : name ≠ "i") (second : name ≠ "j") : Equiv.swap "i" "j" name = name :=
    Equiv.swap_apply_of_ne_of_ne first second
  refine ⟨other (by decide) (by decide), ?_, nofun, ?_⟩
  · intro line definition found parameter listed
    have first : tally.listing.definition? = some (1, ⟨[.accStatic], "tally", [⟨"x", "I"⟩], "V"⟩) := rfl
    cases first.symm.trans found
    obtain rfl := List.mem_singleton.mp listed
    exact other (by decide) (by decide)
  · intro name number
    apply other
    · rintro rfl
      revert number
      decide
    · rintro rfl
      revert number
      decide

theorem outcome_renamed_tally : tally.listing.aliases = [] ∧ defaults.Keeps tally.listing (Equiv.swap "i" "j") ∧
    defaults.outcome (tally.rename ⟨Equiv.swap "out" "end", id⟩) =
      (defaults.outcome tally).mapError (CompileError.rename ⟨Equiv.swap "out" "end", id⟩) ∧
    defaults.outcome (tally.rename ⟨id, Equiv.swap "i" "j"⟩) =
      ((defaults.outcome tally).mapError (CompileError.rename ⟨id, Equiv.swap "i" "j"⟩)).map fun (method, frames) =>
        (method.rename (Equiv.swap "i" "j"), frames) := by
  obtain ⟨labels, locals⟩ := outcome_renamed defaults tally rfl
  exact ⟨rfl, tally_keeps, labels _ (Equiv.injective _), locals _ (Equiv.injective _) tally_keeps⟩

end Assembler
end Bytecode
