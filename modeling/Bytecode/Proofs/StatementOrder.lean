import Bytecode.Proofs.VerifiedCode
import Bytecode.Proofs.InstructionOrigins

/-! The order of the statements of a listing. It counts within each kind of statement, never between two
of them: the statements of a kind may stand anywhere among the others. -/

namespace Bytecode
open Verify (except_map_bind except_bind_map)

namespace Listing
variable {first second : Listing}

/-- The statements of one kind, in document order. -/
def sequence (listing : Listing) (kind : StatementKind) : List Entry :=
  listing.entries.filter (·.statement.kind == kind)

/-- The statements of each kind are the same, in the same order and on the same lines. -/
def SameSequences (first second : Listing) : Prop :=
  ∀ kind, first.sequence kind = second.sequence kind

/-- Statements that are chosen for one kind are chosen from its sequence. -/
theorem select_sequence {α : Type} {choose : Statement → Option α} {kind : StatementKind} (listing : Listing)
    (only : ∀ statement chosen, choose statement = some chosen → statement.kind = kind) :
    listing.select choose = (⟨listing.sequence kind⟩ : Listing).select choose := by
  unfold select sequence
  rw [List.filterMap_filter]
  apply List.filterMap_congr
  intro entry _
  split
  next => rfl
  next other =>
    cases chosen : choose entry.statement with
    | none => rfl
    | some value => exact absurd (beq_iff_eq.mpr (only _ _ chosen)) other

namespace SameSequences

theorem select (same : first.SameSequences second) {α : Type} {choose : Statement → Option α} (kind : StatementKind)
    (only : ∀ statement chosen, choose statement = some chosen → statement.kind = kind) :
    first.select choose = second.select choose := by
  rw [first.select_sequence only, second.select_sequence only, same kind]

variable (same : first.SameSequences second)
include same

theorem definition? : first.definition? = second.definition? := by
  unfold Listing.definition?
  rw [same.select .definition fun statement => by cases statement <;> simp [Statement.definition?, Statement.kind]]

theorem signature? : first.signature? = second.signature? := by
  unfold Listing.signature?
  rw [same.select .signature fun statement => by cases statement <;> simp [Statement.signature?, Statement.kind]]

theorem throws : first.throws = second.throws :=
  same.select .throws fun statement => by cases statement <;> simp [Statement.throws?, Statement.kind]

theorem labels : first.labels = second.labels :=
  same.select .code fun statement => by cases statement <;> simp [Statement.label?, Statement.kind]

theorem operations : first.operations = second.operations :=
  same.select .code fun statement => by cases statement <;> simp [Statement.operation?, Statement.kind]

theorem tryCatches : first.tryCatches = second.tryCatches :=
  same.select .tryCatch fun statement => by cases statement <;> simp [Statement.tryCatch?, Statement.kind]

theorem aliases : first.aliases = second.aliases :=
  same.select .alias fun statement => by cases statement <;> simp [Statement.alias?, Statement.kind]

end SameSequences
end Listing

namespace Origins

/-- Origins without the places of the statements in their listing. -/
def unplaced (origins : Origins) : Origins := ⟨origins.entries.map fun origin => ⟨0, origin.line⟩⟩

theorem lineOf?_unplaced (origins : Origins) : origins.unplaced.lineOf? = origins.lineOf? := by
  funext index
  simp [lineOf?, unplaced, Function.comp_def]

theorem instructionAt?_unplaced (origins : Origins) : origins.unplaced.instructionAt? = origins.instructionAt? := by
  funext line
  simp [instructionAt?_eq, unplaced, Function.comp_def]

end Origins

namespace Emission
variable {tables : Tables}

def unplaced (emission : Emission) : Emission := { emission with origins := emission.origins.unplaced }

theorem push_unplaced (emission : Emission) (index line : Nat) (instruction : Instruction) :
    (emission.push index line instruction).unplaced = emission.unplaced.push 0 line instruction := by
  simp [push, unplaced, Origins.unplaced]

theorem place_unplaced (emission : Emission) (index line : Nat) (name : String) :
    (emission.place tables index line name).map unplaced = emission.unplaced.place tables 0 line name := by
  have placed : emission.unplaced.placed = emission.placed := rfl
  unfold place
  rw [placed]
  cases tables.labels.get? name with
  | none => rfl
  | some label =>
    dsimp only
    cases emission.placed.lookup label with
    | some firstLine => rfl
    | none =>
      refine congrArg Except.ok ?_
      exact congrArg (fun pushed : Emission => { pushed with placed := (label, line) :: emission.placed })
        (emission.push_unplaced index line (.label label))

/-- A step takes the place of its statement for nothing but the origin. -/
theorem step_unplaced (emission : Emission) (entry : Entry) (index : Nat) :
    (emission.step tables entry index).map unplaced = emission.unplaced.step tables entry 0 := by
  obtain ⟨line, statement⟩ := entry
  cases statement with
  | label name => exact emission.place_unplaced index line name
  | operation operation =>
    simp only [step, except_map_bind]
    refine bind_congr fun instruction => ?_
    exact congrArg Except.ok (emission.push_unplaced index line instruction)
  | _ => rfl

theorem step_silent (emission : Emission) {entry : Entry} (index : Nat) (silent : entry.statement.emits = false) :
    emission.step tables entry index = .ok emission := by
  obtain ⟨line, statement⟩ := entry
  cases statement with
  | label | operation => cases silent
  | _ => rfl

/-- Emission passes over all statements but those of the code. -/
theorem fold_unplaced (numbered : List (Entry × Nat)) (emission : Emission) :
    (numbered.foldlM (fun emission (entry, index) => step tables emission entry index) emission).map unplaced =
      ((numbered.map Prod.fst).filter (·.statement.emits)).foldlM
        (fun emission entry => step tables emission entry 0) emission.unplaced := by
  induction numbered generalizing emission with
  | nil => rfl
  | cons first rest ih =>
    obtain ⟨entry, index⟩ := first
    rw [List.foldlM_cons, except_map_bind, List.map_cons, List.filter_cons]
    simp only [ih]
    split
    next => rw [List.foldlM_cons, ← step_unplaced, except_bind_map]
    next silent =>
      rw [step_silent emission index (by simpa using silent)]
      rfl

theorem ofListing_unplaced (listing : Listing) : (ofListing tables listing).map unplaced =
    (listing.sequence .code).foldlM (fun emission entry => step tables emission entry 0) empty := by
  have start : empty.unplaced = empty := by simp [unplaced, Origins.unplaced, empty]
  rw [ofListing, fold_unplaced, List.zipIdx_map_fst, start]
  rfl

end Emission

/-- What can be asked of an assembly: for the method with its frames, for the line of an instruction and for
the first instruction of a line. -/
structure Observation where
  method : Method
  frames : Option (Array (Option Verify.Frame))
  lineOf? : Nat → Option Nat
  instructionAt? : Nat → Option Nat

def Assembly.observe (assembly : Assembly) : Observation :=
  ⟨assembly.method, assembly.frames, assembly.lineOf?, assembly.instructionAt?⟩

namespace Assembler
variable {assembler : Assembler}

theorem rejected_unplaced (method : Method) (origins : Origins) :
    rejected method origins.unplaced = rejected method origins := by
  funext rejection
  rw [rejected, rejected, Origins.lineOf?_unplaced]

theorem conclude_unplaced (header : Header) (ranges : List ExceptionRange) (tables : Tables) (emission : Emission) :
    (assembler.conclude header ranges tables emission.unplaced).map Assembly.observe =
      (assembler.conclude header ranges tables emission).map Assembly.observe := by
  have observed (method : Method) (frames : Option (Array (Option Verify.Frame))) (tables : Tables) :
      Assembly.observe ⟨method, frames, some ⟨tables, emission.origins.unplaced⟩⟩ =
        Assembly.observe ⟨method, frames, some ⟨tables, emission.origins⟩⟩ := by
    have lines := emission.origins.lineOf?_unplaced
    have firsts := emission.origins.instructionAt?_unplaced
    exact congrArg₂ (Observation.mk method frames) lines firsts
  have assembled : assembler.assemble header ranges tables.slots emission.unplaced =
      assembler.assemble header ranges tables.slots emission := rfl
  have origins : emission.unplaced.origins = emission.origins.unplaced := rfl
  unfold conclude
  simp only [assembled, origins, rejected_unplaced]
  split
  next =>
    cases assembler.verifier.analyze (assembler.assemble header ranges tables.slots emission) with
    | error rejection => rfl
    | ok frames => exact congrArg Except.ok (observed _ _ _)
  next => exact congrArg Except.ok (observed _ _ _)

variable {first second : Listing}

theorem compileCode_sequences (same : first.SameSequences second) (aliases : Aliases) (header : Header) :
    (assembler.compileCode first aliases header).map Assembly.observe =
      (assembler.compileCode second aliases header).map Assembly.observe := by
  have labels : LabelTable.ofListing first = .ofListing second := by
    rw [LabelTable.ofListing, LabelTable.ofListing, same.labels]
  have uses : SlotUse.ofListing first aliases = SlotUse.ofListing second aliases := by
    rw [SlotUse.ofListing, SlotUse.ofListing, same.operations]
  have ranges : ExceptionRange.ofListing first (.ofListing second) aliases =
      ExceptionRange.ofListing second (.ofListing second) aliases := by
    rw [ExceptionRange.ofListing, ExceptionRange.ofListing, same.tryCatches]
  have emitted (tables : Tables) : (Emission.ofListing tables first).map Emission.unplaced =
      (Emission.ofListing tables second).map Emission.unplaced := by
    rw [Emission.ofListing_unplaced, Emission.ofListing_unplaced, same .code]
  -- nothing that comes after the emission asks where in the listing a statement stood
  have through (ranges : List ExceptionRange) (tables : Tables) (listing : Listing) :
      (Emission.ofListing tables listing >>= assembler.conclude header ranges tables).map Assembly.observe =
        (Emission.ofListing tables listing).map Emission.unplaced >>= fun emission =>
          (assembler.conclude header ranges tables emission).map Assembly.observe := by
    rw [except_map_bind, except_bind_map]
    exact bind_congr fun emission => (conclude_unplaced header ranges tables emission).symm
  rw [compileCode_eq, compileCode_eq, labels, uses, ranges, except_map_bind, except_map_bind]
  refine bind_congr fun ranges => ?_
  simp only [except_map_bind]
  refine bind_congr fun _ => ?_
  rw [← except_map_bind, ← except_map_bind, through, through, emitted]

/-- Whatever stands between the statements of a kind, a listing compiles alike: to the same method with the
same frames and lines, or to the same error. -/
theorem compile_sequences (assembler : Assembler) (problems : List Problem) (same : first.SameSequences second) :
    (assembler.compile ⟨first, problems⟩).map Assembly.observe =
      (assembler.compile ⟨second, problems⟩).map Assembly.observe := by
  have aliases : Aliases.ofListing first = .ofListing second := by
    rw [Aliases.ofListing, Aliases.ofListing, same.aliases]
  have header (aliases : Aliases) : Header.ofListing first aliases = Header.ofListing second aliases := by
    unfold Header.ofListing
    rw [same.definition?, same.signature?, same.throws]
  cases problems with
  | cons problem rest => rw [compile_problems, compile_problems]
  | nil =>
    rw [compile_eq, compile_eq, aliases, header, except_map_bind, except_map_bind]
    refine bind_congr fun header => ?_
    split
    next => rfl
    next => exact compileCode_sequences same _ header

/-- The code of a method with a protected range. -/
def guardedCode : List Entry :=
  [⟨4, .label "start"⟩, ⟨5, .operation (.simple .nop)⟩, ⟨6, .label "stop"⟩, ⟨7, .operation (.simple .returnVoid)⟩,
    ⟨8, .label "catch"⟩, ⟨9, .operation (.simple .pop)⟩, ⟨10, .operation (.simple .returnVoid)⟩]

/-- What is said of the method besides its code. -/
def guardedHead : List Entry :=
  [⟨1, .definition ⟨[.accStatic], "n", [], "V"⟩⟩, ⟨2, .alias "end" "stop"⟩,
    ⟨3, .tryCatch ⟨"start", "end", "catch", none⟩⟩]

theorem compile_sequences_guarded :
    Listing.SameSequences ⟨guardedHead ++ guardedCode⟩ ⟨guardedCode ++ guardedHead.reverse⟩ ∧
      (defaults.compile ⟨⟨guardedHead ++ guardedCode⟩, []⟩).map (fun _ => ()) = .ok () ∧
      (defaults.compile ⟨⟨guardedHead ++ guardedCode⟩, []⟩).map Assembly.observe =
        (defaults.compile ⟨⟨guardedCode ++ guardedHead.reverse⟩, []⟩).map Assembly.observe := by
  have same : Listing.SameSequences ⟨guardedHead ++ guardedCode⟩ ⟨guardedCode ++ guardedHead.reverse⟩ := by
    intro kind
    cases kind <;> rfl
  exact ⟨same, by decide +kernel, compile_sequences defaults [] same⟩

end Assembler
end Bytecode
