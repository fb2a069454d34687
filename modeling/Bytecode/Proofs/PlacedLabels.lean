import Bytecode.Proofs.EmittedCode

/-! The label markers of assembled code. Each label statement places the marker of its name, in the
order of the statements, and no marker is placed twice. -/

namespace Bytecode
open List
open Verify (except_bind_ok foldlM_holds)

namespace LabelTable
variable {table : LabelTable} {listing : Listing} {name : String}

theorem get?_isSome_iff : (table.get? name).isSome = true ↔ ∃ entry ∈ table.entries, entry.name = name := by
  simp [get?, List.findIdx?_isSome]

theorem get?_register_isSome (declared : String) (line : Nat) :
    ((table.register declared line).get? name).isSome = true ↔
      (table.get? name).isSome = true ∨ declared = name := by
  unfold register
  cases known : table.get? declared with
  | none => simp [get?_isSome_iff, or_and_right, exists_or]
  | some label =>
    constructor
    · exact .inl
    · rintro (found | rfl)
      · exact found
      · rw [known]
        rfl

/-- The names that a listing knows are those of its label statements. -/
theorem get?_ofListing_isSome :
    ((ofListing listing).get? name).isSome = true ↔ ∃ line, (line, name) ∈ listing.labels := by
  have folded (labels : List (Nat × String)) (table : LabelTable) :
      ((labels.foldl (fun table label => table.register label.2 label.1) table).get? name).isSome = true ↔
        (table.get? name).isSome = true ∨ ∃ line, (line, name) ∈ labels := by
    induction labels generalizing table with
    | nil => simp
    | cons label rest ih =>
      obtain ⟨line, declared⟩ := label
      rw [List.foldl_cons, ih, get?_register_isSome]
      simp only [List.mem_cons, Prod.mk.injEq, exists_or, exists_and_right, exists_eq, true_and, or_assoc,
        eq_comm (a := name)]
  refine (folded listing.labels empty).trans ?_
  simp [empty, get?]

theorem name?_of_get? {label : Label} (found : table.get? name = some label) : table.name? label = some name := by
  obtain ⟨id, there, rfl⟩ := Option.map_eq_some_iff.mp found
  obtain ⟨inside, stands, _⟩ := List.findIdx?_eq_some_iff_getElem.mp there
  exact Option.map_eq_some_iff.mpr ⟨_, List.getElem?_eq_getElem inside, by simpa using stands⟩

/-- No two names have the same label. -/
theorem get?_inj {other : String} {label : Label} (found : table.get? name = some label)
    (also : table.get? other = some label) : name = other :=
  Option.some.inj ((name?_of_get? found).symm.trans (name?_of_get? also))

end LabelTable

/-- The label that the instruction marks. -/
def Instruction.mark? : Instruction → Option Label
  | .label mark => some mark
  | _ => none

section Placed
variable {instructions : List Instruction}

theorem mem_placedLabels {placed : PlacedLabel} :
    placed ∈ placedLabels instructions ↔ instructions[placed.index]? = some (.label placed.label) := by
  obtain ⟨index, label⟩ := placed
  unfold placedLabels
  rw [List.mem_filterMap]
  constructor
  · intro found
    obtain ⟨⟨instruction, place⟩, listed, found⟩ := found
    have stands := List.mem_zipIdx_iff_getElem?.mp listed
    cases instruction with
    | label mark =>
      cases found
      exact stands
    | _ => cases found
  · intro stands
    exact ⟨(.label label, index), List.mem_zipIdx_iff_getElem?.mpr stands, rfl⟩

theorem placedLabels_sorted (instructions : List Instruction) :
    (placedLabels instructions).Pairwise fun earlier later => earlier.index < later.index := by
  have places : (instructions.zipIdx.map Prod.snd).Pairwise (· < ·) := by
    rw [List.zipIdx_map_snd]
    exact List.pairwise_lt_range'
  apply List.Pairwise.filterMap _ _ (List.pairwise_map.mp places)
  intro first second before placed found other also
  obtain ⟨instruction, place⟩ := first
  obtain ⟨next, there⟩ := second
  cases instruction with
  | label =>
    cases next with
    | label =>
      cases found
      cases also
      exact before
    | _ => cases also
  | _ => cases found

theorem placedLabels_marks (instructions : List Instruction) :
    (placedLabels instructions).map (·.label) = instructions.filterMap Instruction.mark? := by
  rw [placedLabels, List.map_filterMap]
  conv => rhs; rw [← List.zipIdx_map_fst 0 instructions, List.filterMap_map]
  congr 1
  funext numbered
  obtain ⟨instruction, index⟩ := numbered
  cases instruction <;> rfl

end Placed

namespace Emission
variable {tables : Tables} {listing : Listing} {before after emission : Emission}

def marks (emission : Emission) : List Label := emission.instructions.toList.filterMap Instruction.mark?

theorem marks_push (index line : Nat) (instruction : Instruction) :
    (emission.push index line instruction).marks = emission.marks ++ instruction.mark?.toList := by
  cases instruction <;> simp [marks, push, Instruction.mark?]

theorem mark_of_operation {scope : Scope} {operation : Operation} {instruction : Instruction}
    (compiled : operation.compile scope = .ok instruction) : instruction.mark? = none := by
  obtain ⟨_, compiles⟩ := Operation.compile_ok.mp compiled
  cases compiles <;> rfl

/-- A label statement places a marker that was not placed before; any other statement places none. -/
theorem step_marks {entry : Entry} {index : Nat} (stepped : before.step tables entry index = .ok after) :
    (∃ name mark, entry.statement = .label name ∧ tables.labels.get? name = some mark ∧
      mark ∉ before.placed.map Prod.fst ∧ after.marks = before.marks ++ [mark] ∧
      after.placed = (mark, entry.line) :: before.placed) ∨
    entry.statement.label? = none ∧ after.marks = before.marks ∧ after.placed = before.placed := by
  unfold step at stepped
  split at stepped
  next name same =>
    left
    unfold place at stepped
    split at stepped
    next => cases stepped
    next mark known =>
      split at stepped
      next => cases stepped
      next fresh =>
        cases stepped
        refine ⟨name, mark, same, known, ?_, marks_push index entry.line _, rfl⟩
        intro listed
        obtain ⟨⟨other, line⟩, among, rfl⟩ := List.mem_map.mp listed
        simpa using List.lookup_eq_none_iff.mp fresh _ among
  next operation same =>
    right
    obtain ⟨instruction, compiled, done⟩ := except_bind_ok.mp stepped
    cases done
    refine ⟨by rw [same]; rfl, ?_, rfl⟩
    rw [marks_push, mark_of_operation compiled]
    exact List.append_nil _
  next other _ =>
    right
    cases stepped
    refine ⟨?_, rfl, rfl⟩
    cases stands : entry.statement with
    | label name => exact absurd stands (other name)
    | _ => rfl

/-- The markers placed so far, each once. -/
structure Marked (emission : Emission) : Prop where
  placed : emission.placed.map Prod.fst = emission.marks.reverse
  distinct : emission.marks.Nodup

theorem Marked.step (marked : before.Marked) {entry : Entry} {index : Nat}
    (stepped : before.step tables entry index = .ok after) : after.Marked := by
  rcases step_marks stepped with ⟨name, mark, _, _, fresh, marks, placed⟩ | ⟨_, marks, placed⟩
  · refine ⟨by simp [marks, placed, marked.placed], ?_⟩
    rw [marked.placed, List.mem_reverse] at fresh
    rw [marks, List.nodup_append]
    refine ⟨marked.distinct, by simp, ?_⟩
    intro other listed last single same
    rw [List.mem_singleton.mp single] at same
    exact fresh (same ▸ listed)
  · exact ⟨by rw [marks, placed, marked.placed], by rw [marks]; exact marked.distinct⟩

theorem marked_ofListing (emitted : Emission.ofListing tables listing = .ok emission) : emission.Marked := by
  have start : empty.Marked := ⟨rfl, List.nodup_nil⟩
  apply foldlM_holds Marked start _ emitted
  intro before entry after _ marked stepped
  exact marked.step stepped

theorem marks_fold {entries : List (Entry × Nat)} (folded : entries.foldlM
    (fun emission (entry, index) => emission.step tables entry index) before = .ok after) :
    after.marks.map some = before.marks.map some ++
      entries.filterMap fun numbered => numbered.1.statement.label?.map tables.labels.get? := by
  induction entries generalizing before with
  | nil =>
    cases folded
    simp
  | cons numbered rest ih =>
    obtain ⟨entry, index⟩ := numbered
    rw [List.foldlM_cons] at folded
    obtain ⟨middle, stepped, folded⟩ := except_bind_ok.mp folded
    rw [ih folded]
    rcases step_marks stepped with ⟨name, mark, same, known, _, marks, _⟩ | ⟨none, marks, _⟩
    · simp [marks, same, Statement.label?, known]
    · simp [marks, none]

/-- The markers of the code are those of the label statements, in their order. -/
theorem marks_ofListing (emitted : Emission.ofListing tables listing = .ok emission) :
    emission.marks.map some = listing.labels.map fun label => tables.labels.get? label.2 := by
  have folded := marks_fold emitted
  have numbered : listing.entries.zipIdx.filterMap (fun numbered =>
      numbered.1.statement.label?.map tables.labels.get?) =
        listing.entries.filterMap fun entry => entry.statement.label?.map tables.labels.get? := by
    conv => rhs; rw [← List.zipIdx_map_fst 0 listing.entries, List.filterMap_map]
    rfl
  rw [folded, numbered, Listing.labels, Listing.select, List.map_filterMap]
  simp [marks, empty, Function.comp_def]

end Emission
end Bytecode
