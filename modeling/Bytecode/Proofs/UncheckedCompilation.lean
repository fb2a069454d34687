import Bytecode.Proofs.VariableRanges

/-! What verification adds to a compilation. Without it the same code comes out, or the same error; with it the
code may be refused, and otherwise there are frames and, in the variable table, rows for the variables whose
type is not declared, with the rows of all others as they were. -/

namespace Bytecode
open Verify (Frame except_bind_ok)

/-- A stable sort does not care whether entries are left out before it or after it. -/
theorem filter_mergeSort {α : Type} {before : α → α → Bool}
    (trans : ∀ first second third, before first second → before second third → before first third)
    (total : ∀ first second, before first second || before second first) (keeps : α → Bool) (entries : List α) :
    (entries.mergeSort before).filter keeps = (entries.filter keeps).mergeSort before := by
  induction entries with
  | nil => simp
  | cons first rest ih =>
    obtain ⟨lower, upper, sorted, without, ahead⟩ := List.mergeSort_cons trans total first rest
    by_cases kept : keeps first = true
    · obtain ⟨low, high, ordered, apart, early⟩ := List.mergeSort_cons trans total first (rest.filter keeps)
      -- Both split the kept entries of the rest into those that come before the first one and those that do not.
      have split {front back whole : List α} (ends : (front ++ first :: back).Pairwise (fun one two => before one two))
          (begins : ∀ entry ∈ front, (!before first entry) = true) (same : front ++ back = whole) :
          front = whole.filter (fun entry => !before first entry) ∧
            back = whole.filter (fun entry => before first entry) := by
        have behind : ∀ entry ∈ back, before first entry = true :=
          (List.pairwise_cons.mp (List.pairwise_append.mp ends).2.1).1
        rw [← same, List.filter_append, List.filter_append, List.filter_eq_self.mpr begins,
          List.filter_eq_self.mpr behind]
        constructor
        · rw [List.filter_eq_nil_iff.mpr fun entry listed => by simp [behind entry listed], List.append_nil]
        · rw [List.filter_eq_nil_iff.mpr fun entry listed => by simpa using begins entry listed, List.nil_append]
      have whole := List.pairwise_mergeSort trans total (first :: rest)
      rw [sorted] at whole
      have other := List.pairwise_mergeSort trans total (first :: rest.filter keeps)
      rw [ordered] at other
      obtain ⟨front, back⟩ := split whole ahead without.symm
      obtain ⟨also, too⟩ := split other early apart.symm
      rw [List.filter_cons_of_pos kept, sorted, ordered, List.filter_append, List.filter_cons_of_pos kept, front, back,
        also, too, ← ih]
      simp only [List.filter_filter, Bool.and_comm]
    · rw [List.filter_cons_of_neg kept, ← ih, sorted, without, List.filter_append, List.filter_append,
        List.filter_cons_of_neg kept]

namespace LocalVariable

/-- Rows are ordered by slot and then by name. -/
def before (left right : LocalVariable) : Bool :=
  left.index < right.index || (left.index == right.index && !(right.name < left.name))

theorem before_iff {left right : LocalVariable} : left.before right = true ↔
    left.index.toNat < right.index.toNat ∨ left.index = right.index ∧ left.name ≤ right.name := by
  simp only [before, Bool.or_eq_true, Bool.and_eq_true, decide_eq_true_eq, beq_iff_eq, Bool.not_eq_true',
    decide_eq_false_iff_not, String.not_lt, UInt16.lt_iff_toNat_lt]

theorem before_trans (first second third : LocalVariable) (lower : first.before second = true)
    (upper : second.before third = true) : first.before third = true := by
  rw [before_iff] at *
  rcases lower with below | ⟨same, named⟩
  · rcases upper with under | ⟨equal, _⟩
    · exact .inl (Nat.lt_trans below under)
    · exact .inl (equal ▸ below)
  · rcases upper with under | ⟨equal, called⟩
    · exact .inl (same ▸ under)
    · exact .inr ⟨same.trans equal, String.le_trans named called⟩

theorem before_total (first second : LocalVariable) : (first.before second || second.before first) = true := by
  rw [Bool.or_eq_true, before_iff, before_iff]
  rcases Nat.lt_trichotomy first.index.toNat second.index.toNat with below | same | above
  · exact .inl (.inl below)
  · have equal := UInt16.toNat_inj.mp same
    exact (String.le_total first.name second.name).imp (fun named => .inr ⟨equal, named⟩)
      fun named => .inr ⟨equal.symm, named⟩
  · exact .inr (.inl above)

end LocalVariable

namespace SlotTable
variable {table : SlotTable}

/-- Registration infers nothing. -/
theorem Registers.live {allows : SlotTable → Variable → Prop} {before after : SlotTable}
    (grown : Registers allows before after) : after.live = before.live := by
  induction grown with
  | refl => rfl
  | reserve _ _ ih => exact ih
  | insert _ _ _ _ _ ih => exact ih

/-- Before anything is inferred a variable has the same row as after, if its type is declared, and none if not. -/
theorem localVariable?_fresh (fresh : table.live = {}) (frames : List (Option Frame)) (labels : List PlacedLabel)
    (entry : Variable) : table.localVariable? labels entry =
      ((table.inferRanges frames).localVariable? labels entry).filter fun _ => entry.descriptor.isSome := by
  cases kind : entry.descriptor with
  | some descriptor =>
    have same : (table.inferRanges frames).localVariable? labels entry = table.localVariable? labels entry := by
      simp only [localVariable?, kind]
    rw [same]
    cases table.localVariable? labels entry <;> rfl
  | none =>
    have nothing : table.localVariable? labels entry = none := by simp [localVariable?, kind, fresh]
    rw [nothing]
    cases (table.inferRanges frames).localVariable? labels entry <;> rfl

/-- What is inferred adds rows for the variables without a declared type, and leaves those of the others. -/
theorem localVariables_fresh {declared : String → Bool} (fresh : table.live = {})
    (typed : ∀ entry ∈ table.entries, entry.descriptor.isSome = declared entry.name)
    (frames : List (Option Frame)) (instructions : List Instruction) : table.localVariables instructions =
      ((table.inferRanges frames).localVariables instructions).filter (fun row => declared row.name) := by
  have rows : table.entries.toList.filterMap (table.localVariable? (placedLabels instructions)) =
      (table.entries.toList.filterMap ((table.inferRanges frames).localVariable? (placedLabels instructions))).filter
        (fun row => declared row.name) := by
    rw [List.filter_filterMap]
    apply List.filterMap_congr
    intro entry listed
    rw [localVariable?_fresh fresh frames, typed entry (Array.mem_toList_iff.mp listed)]
    cases found : (table.inferRanges frames).localVariable? (placedLabels instructions) entry with
    | none => rfl
    | some row => rw [Option.filter_some, Option.filter_some, (localVariable?_entry found).1]
  change (table.entries.toList.filterMap _).mergeSort LocalVariable.before =
    ((table.entries.toList.filterMap _).mergeSort LocalVariable.before).filter _
  rw [filter_mergeSort LocalVariable.before_trans LocalVariable.before_total, rows]

end SlotTable

namespace Assembler

/-- The assembler with verification on or off. -/
def verifying (assembler : Assembler) (verify : Bool) : Assembler :=
  { assembler with config := { assembler.config with verify } }

theorem initialSlots_live (assembler : Assembler) (header : Header) : (assembler.initialSlots header).live = {} :=
  (SlotTable.addParameters_registers _ _).live.trans SlotTable.ofBaseline_registers.live

end Assembler

/-- An assembly without verification next to the one with it: the same but for the frames, the ranges inferred
from them, and the rows of the variables that are not declared. -/
structure Assembly.Observes (declared : SlotTable) (bare checked : Assembly) : Prop where
  frames : bare.frames = none
  method : { bare.method with variableTable := none } = { checked.method with variableTable := none }
  bookkeeping : bare.compilation = checked.compilation.map fun compilation =>
    { compilation with tables :=
      { compilation.tables with slots := { compilation.tables.slots with live := {} } } }
  typed : ∀ compilation, checked.compilation = some compilation → ∀ entry ∈ compilation.tables.slots.entries,
    entry.descriptor.isSome = declared.contains entry.name
  rows : bare.method.variableTable = checked.method.variableTable.map fun rows =>
    rows.filter fun row => declared.contains row.name

namespace Assembler
variable {assembler : Assembler}

/-- The results of a compilation without verification and with it. -/
inductive Observed (assembler : Assembler) (source : ReadListing) :
    Except CompileError Assembly → Except CompileError Assembly → Prop where
  | fails (failure : CompileError) : Observed assembler source (.error failure) (.error failure)
  | refused (bare : Assembly) (index : Nat) (line : Option Nat) (instruction : Option Instruction)
      (violation : Verify.Violation) :
      Observed assembler source (.ok bare) (.error (.verification index line instruction violation))
  | passes {header : Header} {bare checked : Assembly}
      (read : Header.ofListing source.listing (.ofListing source.listing) = .ok header)
      (observes : Assembly.Observes (assembler.initialSlots header) bare checked) :
      Observed assembler source (.ok bare) (.ok checked)

theorem typed_of_registers {header : Header} {slots : SlotTable}
    (grown : SlotTable.Registers SlotTable.AllowsNew (assembler.initialSlots header) slots) :
    ∀ entry ∈ slots.entries, entry.descriptor.isSome = (assembler.initialSlots header).contains entry.name := by
  have initial := assembler.initialSlots_sound header
  intro entry listed
  cases known : (assembler.initialSlots header).contains entry.name with
  | true =>
    obtain ⟨other, found⟩ := Option.isSome_iff_exists.mp ((SlotTable.contains_eq _ _).symm.trans known)
    obtain ⟨among, named⟩ := (initial.known _ other).mp found
    rw [(grown.sound initial).unique listed (grown.kept among) named.symm]
    exact initialSlots_typed header among
  | false =>
    have absent := initial.fresh_iff.mp known
    rcases grown.new (fun _ _ allowed => allowed.2) listed with old | untyped
    · exact absurd rfl (absent entry old)
    · rw [untyped, Option.isSome_none]

theorem conclude_observed {source : ReadListing} {header : Header} {ranges : List ExceptionRange} {tables : Tables}
    (read : Header.ofListing source.listing (.ofListing source.listing) = .ok header)
    (grown : SlotTable.Registers SlotTable.AllowsNew (assembler.initialSlots header) tables.slots)
    (emission : Emission) : assembler.Observed source
      ((assembler.verifying false).conclude header ranges tables emission)
      ((assembler.verifying true).conclude header ranges tables emission) := by
  have fresh : tables.slots.live = {} := grown.live.trans (assembler.initialSlots_live header)
  have typed := typed_of_registers grown
  have unchecked : (assembler.verifying false).conclude header ranges tables emission = .ok
      ⟨assembler.withTable (assembler.assemble header ranges tables.slots emission) tables.slots, none,
        some ⟨tables, emission.origins⟩⟩ := rfl
  have checked : (assembler.verifying true).conclude header ranges tables emission =
      ((assembler.verifier.analyze (assembler.assemble header ranges tables.slots emission)).mapError
        (rejected (assembler.assemble header ranges tables.slots emission) emission.origins)).map fun frames =>
          ⟨assembler.withTable (assembler.assemble header ranges tables.slots emission)
              (tables.slots.inferRanges frames.toList), some frames,
            some ⟨{ tables with slots := tables.slots.inferRanges frames.toList }, emission.origins⟩⟩ := rfl
  rw [unchecked, checked]
  cases assembler.verifier.analyze (assembler.assemble header ranges tables.slots emission) with
  | error rejection => exact .refused ..
  | ok frames =>
    refine .passes read ⟨rfl, rfl, ?_, ?_, ?_⟩
    · simp [SlotTable.inferRanges, ← fresh]
    · intro compilation made
      cases made
      exact typed
    · simp only [withTable]
      split
      · exact congrArg some (SlotTable.localVariables_fresh fresh typed _ _)
      · rfl

theorem compileCode_observed {source : ReadListing} {header : Header}
    (read : Header.ofListing source.listing (.ofListing source.listing) = .ok header) : assembler.Observed source
      ((assembler.verifying false).compileCode source.listing (.ofListing source.listing) header)
      ((assembler.verifying true).compileCode source.listing (.ofListing source.listing) header) := by
  have initial (verify : Bool) : (assembler.verifying verify).initialSlots header = assembler.initialSlots header := rfl
  rw [compileCode_eq, compileCode_eq, initial, initial]
  cases ExceptionRange.ofListing source.listing (.ofListing source.listing) (.ofListing source.listing) with
  | error failure => exact .fails failure
  | ok ranges =>
    cases taken : (assembler.initialSlots header).allocate
      (SlotUse.ofListing source.listing (.ofListing source.listing)) with
    | mk slots outcome =>
    cases outcome with
    | error failure => exact .fails failure
    | ok =>
      have grown := (SlotTable.allocate_ok (assembler.initialSlots_sound header) (fun _ => SlotUse.positive) taken).1
      cases emitted : Emission.ofListing ⟨.ofListing source.listing, slots, .ofListing source.listing⟩
        source.listing with
      | error failure =>
        simp only [emitted]
        exact .fails failure
      | ok emission =>
        simp only [emitted]
        exact conclude_observed read grown emission

/-- Verification only observes: it may refuse a method, but what it accepts compiles to the same without it, save
for what is inferred from the frames, and what fails without it fails with it in the same way. -/
theorem verification_observes (assembler : Assembler) (source : ReadListing) :
    assembler.Observed source ((assembler.verifying false).compile source)
      ((assembler.verifying true).compile source) := by
  obtain ⟨listing, problems⟩ := source
  cases problems with
  | cons problem rest =>
    rw [compile_problems, compile_problems]
    exact .fails _
  | nil =>
    rw [compile_eq, compile_eq]
    cases read : Header.ofListing listing (.ofListing listing) with
    | error failure => exact .fails failure
    | ok header =>
      cases abstract : header.isAbstract with
      | true =>
        have same : assembler.Observed ⟨listing, []⟩ (.ok ⟨.ofHeader header, none, none⟩)
            (.ok ⟨.ofHeader header, none, none⟩) :=
          .passes read ⟨rfl, rfl, rfl, nofun, rfl⟩
        simpa [abstract, bind, Except.bind, pure, Except.pure] using same
      | false =>
        simpa [abstract, bind, Except.bind] using @compileCode_observed assembler ⟨listing, []⟩ header read

end Assembler
end Bytecode
