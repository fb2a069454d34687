import Mathlib.Data.List.Nodup
import Bytecode.Proofs.PlacedLabels

/-! The labels between which a live range is said to lie. It begins at the nearest label before it, and
should end at the nearest one after it or, if there is none, at the last of all. The code takes the
next label after its beginning then. -/

namespace Bytecode

theorem find?_iff {α : Type} {before : α → α → Prop} {list : List α} {has : α → Bool} {element : α}
    (ordered : list.Pairwise before) (asymmetric : ∀ first second, before first second → ¬ before second first) :
    list.find? has = some element ↔ element ∈ list ∧ has element = true ∧
      ∀ other ∈ list, has other = true → ¬ before other element := by
  have ahead {element : α} (here : list.find? has = some element) :
      ∀ other ∈ list, has other = true → other = element ∨ before element other := by
    obtain ⟨_, earlier, later, rfl, none⟩ := List.find?_eq_some_iff_append.mp here
    obtain ⟨_, ordered, _⟩ := List.pairwise_append.mp ordered
    intro other listed also
    rcases List.mem_append.mp listed with first | last
    · simpa [also] using none other first
    · rcases List.mem_cons.mp last with same | last
      · exact .inl same
      · exact .inr ((List.pairwise_cons.mp ordered).1 other last)
  constructor
  · intro here
    refine ⟨List.mem_of_find?_eq_some here, List.find?_some here, ?_⟩
    intro other listed also
    rcases ahead here other listed also with rfl | later
    · exact fun before => asymmetric _ _ before before
    · exact asymmetric _ _ later
  · intro ⟨listed, also, foremost⟩
    obtain ⟨first, here⟩ := Option.isSome_iff_exists.mp (List.find?_isSome.mpr ⟨element, listed, also⟩)
    rcases ahead here element listed also with rfl | later
    · exact here
    · exact absurd later (foremost first (List.mem_of_find?_eq_some here) (List.find?_some here))

namespace PlacedLabel

/-- The lowest label that has a property. -/
structure Lowest (labels : List PlacedLabel) (has : PlacedLabel → Prop) (label : PlacedLabel) : Prop where
  listed : label ∈ labels
  found : has label
  lowest : ∀ other ∈ labels, has other → label.index ≤ other.index

/-- The highest label that has a property. -/
structure Highest (labels : List PlacedLabel) (has : PlacedLabel → Prop) (label : PlacedLabel) : Prop where
  listed : label ∈ labels
  found : has label
  highest : ∀ other ∈ labels, has other → other.index ≤ label.index

variable {labels : List PlacedLabel} {has : PlacedLabel → Prop} [DecidablePred has] {label : PlacedLabel}
  (sorted : labels.Pairwise fun earlier later => earlier.index < later.index)
include sorted

theorem find?_lowest : labels.find? (fun label => has label) = some label ↔ Lowest labels has label := by
  rw [find?_iff sorted fun _ _ => Nat.lt_asymm]
  simp only [decide_eq_true_eq, Nat.not_lt]
  exact ⟨fun ⟨listed, found, lowest⟩ => ⟨listed, found, lowest⟩,
    fun lowest => ⟨lowest.listed, lowest.found, lowest.lowest⟩⟩

theorem find?_highest : labels.reverse.find? (fun label => has label) = some label ↔
    Highest labels has label := by
  rw [find?_iff (List.pairwise_reverse.mpr sorted) fun _ _ => Nat.lt_asymm]
  simp only [decide_eq_true_eq, Nat.not_lt, List.mem_reverse]
  exact ⟨fun ⟨listed, found, highest⟩ => ⟨listed, found, highest⟩,
    fun highest => ⟨highest.listed, highest.found, highest.highest⟩⟩

omit [DecidablePred has] in
theorem head?_lowest : labels.head? = some label ↔ Lowest labels (fun _ => True) label := by
  rw [← find?_lowest sorted]
  cases labels <;> rfl

omit [DecidablePred has] in
theorem eq_of_index {other : PlacedLabel} (listed : label ∈ labels) (also : other ∈ labels)
    (same : label.index = other.index) : label = other := by
  have distinct : (labels.map (·.index)).Nodup := List.pairwise_map.mpr (sorted.imp Nat.ne_of_lt)
  exact List.inj_on_of_nodup_map distinct listed also same

end PlacedLabel

namespace LiveRange
open PlacedLabel

/-- Where the entry of a range begins: at the last label at or before its first instruction, or else at
the first label of all. -/
inductive Starts (labels : List PlacedLabel) (range : LiveRange) (start : PlacedLabel) : Prop where
  | before (nearest : Highest labels (·.index ≤ range.first) start)
  | leading (none : ∀ label ∈ labels, range.first < label.index) (lowest : Lowest labels (fun _ => True) start)

/-- Where it should end: at the first label after both its last instruction and its start, or else at
the last label of all. -/
inductive Stops (labels : List PlacedLabel) (range : LiveRange) (start stop : PlacedLabel) : Prop where
  | after (nearest : Lowest labels (fun label => start.index < label.index ∧ range.last < label.index) stop)
  | trailing (none : ∀ label ∈ labels, label.index ≤ range.last) (behind : start.index < stop.index)
      (highest : Highest labels (fun _ => True) stop)

/-- Where it does end: at the same label, or else at the first one after its start. -/
inductive Ends (labels : List PlacedLabel) (range : LiveRange) (start stop : PlacedLabel) : Prop where
  | after (nearest : Lowest labels (fun label => start.index < label.index ∧ range.last < label.index) stop)
  | next (none : ∀ label ∈ labels, start.index < label.index → label.index ≤ range.last)
      (nearest : Lowest labels (start.index < ·.index) stop)

/-- A label comes after the range, or at most one comes after its start. -/
def Unambiguous (labels : List PlacedLabel) (range : LiveRange) : Prop :=
  (∃ label ∈ labels, range.last < label.index) ∨
    ∀ start, Starts labels range start → ∀ first ∈ labels, ∀ second ∈ labels,
      start.index < first.index → start.index < second.index → first = second

variable {labels : List PlacedLabel} {range : LiveRange} {start stop : PlacedLabel}

theorem Starts.listed (starts : Starts labels range start) : start ∈ labels := by
  cases starts with
  | before nearest => exact nearest.listed
  | leading _ lowest => exact lowest.listed

theorem Stops.listed (stops : Stops labels range start stop) : stop ∈ labels := by
  cases stops with
  | after nearest => exact nearest.listed
  | trailing _ _ highest => exact highest.listed

theorem Ends.listed (ends : Ends labels range start stop) : stop ∈ labels := by
  cases ends with
  | after nearest => exact nearest.listed
  | next _ nearest => exact nearest.listed

theorem Ends.behind (ends : Ends labels range start stop) : start.index < stop.index := by
  cases ends with
  | after nearest => exact nearest.found.1
  | next _ nearest => exact nearest.found

/-- All of the range is before the end, but for what is behind the last label. -/
theorem Stops.covers (stops : Stops labels range start stop) {index : Nat} (live : index ≤ range.last)
    (ahead : ∃ label ∈ labels, index < label.index) : index < stop.index := by
  cases stops with
  | after nearest => exact Nat.lt_of_le_of_lt live nearest.found.2
  | trailing _ _ highest =>
    obtain ⟨label, listed, ahead⟩ := ahead
    exact Nat.lt_of_lt_of_le ahead (highest.highest label listed trivial)

/-- A label that comes after the range makes no difference between the two ends. -/
theorem ends_iff_stops_of_after (after : ∃ label ∈ labels, range.last < label.index) :
    Ends labels range start stop ↔ Stops labels range start stop := by
  obtain ⟨label, listed, after⟩ := after
  constructor
  · intro ends
    cases ends with
    | after nearest => exact .after nearest
    | next none nearest =>
      have low := none stop nearest.listed nearest.found
      have behind := nearest.found
      have high := none label listed
      omega
  · intro stops
    cases stops with
    | after nearest => exact .after nearest
    | trailing none =>
      have low := none label listed
      omega

theorem ends_iff_stops_of_single (none : ∀ label ∈ labels, label.index ≤ range.last)
    (single : ∀ first ∈ labels, ∀ second ∈ labels,
      start.index < first.index → start.index < second.index → first = second) :
    Ends labels range start stop ↔ Stops labels range start stop := by
  constructor
  · intro ends
    cases ends with
    | after nearest => exact absurd nearest.found.2 (Nat.not_lt.mpr (none stop nearest.listed))
    | next _ nearest =>
      refine .trailing none nearest.found ⟨nearest.listed, trivial, ?_⟩
      intro other listed _
      rcases Nat.lt_or_ge start.index other.index with behind | ahead
      · exact Nat.le_of_eq (congrArg _ (single other listed stop nearest.listed behind nearest.found))
      · exact Nat.le_trans ahead (Nat.le_of_lt nearest.found)
  · intro stops
    cases stops with
    | after nearest => exact absurd nearest.found.2 (Nat.not_lt.mpr (none stop nearest.listed))
    | trailing _ behind highest =>
      refine .next (fun label listed _ => none label listed) ⟨highest.listed, behind, ?_⟩
      intro other listed also
      exact Nat.le_of_eq (congrArg _ (single stop highest.listed other listed behind also))

section Sorted
variable (sorted : labels.Pairwise fun earlier later => earlier.index < later.index)
include sorted

theorem starts_iff : Starts labels range start ↔ ∃ leading, labels.head? = some leading ∧
    (labels.reverse.find? (·.index ≤ range.first)).getD leading = start := by
  cases nearest : labels.reverse.find? (·.index ≤ range.first) with
  | some label =>
    have here := (find?_highest sorted).mp nearest
    constructor
    · intro starts
      obtain ⟨leading, head⟩ := Option.isSome_iff_exists.mp
        (List.isSome_head?.mpr (List.ne_nil_of_mem here.listed))
      refine ⟨leading, head, ?_⟩
      cases starts with
      | before other => exact Option.some.inj (nearest.symm.trans ((find?_highest sorted).mpr other))
      | leading none => exact absurd here.found (Nat.not_le.mpr (none label here.listed))
    · intro ⟨_, _, same⟩
      exact .before (same ▸ here)
  | none =>
    have none : ∀ label ∈ labels, range.first < label.index := by simpa using nearest
    constructor
    · intro starts
      cases starts with
      | before other => exact absurd other.found (Nat.not_le.mpr (none start other.listed))
      | leading _ lowest => exact ⟨start, (head?_lowest sorted).mpr lowest, rfl⟩
    · intro ⟨leading, head, same⟩
      cases same
      exact .leading none ((head?_lowest sorted).mp head)

theorem ends_iff : Ends labels range start stop ↔
    ((labels.filter (start.index < ·.index)).find? (range.last < ·.index)).or
      (labels.filter (start.index < ·.index)).head? = some stop := by
  rw [List.head?_filter, List.find?_filter, Option.or_eq_some_iff]
  simp only [decide_eq_true_eq]
  rw [find?_lowest sorted, find?_lowest sorted, List.find?_eq_none]
  simp only [decide_eq_true_eq, not_and, Nat.not_lt]
  constructor
  · intro ends
    cases ends with
    | after nearest => exact .inl nearest
    | next none nearest => exact .inr ⟨none, nearest⟩
  · intro either
    rcases either with nearest | ⟨none, nearest⟩
    · exact .after nearest
    · exact .next none nearest

/-- The bounds of a range are the labels that it starts and ends at. -/
theorem bounds?_iff {bounds : Label × Label} : range.bounds? labels = some bounds ↔
    ∃ start stop, Starts labels range start ∧ Ends labels range start stop ∧ bounds = (start.label, stop.label) := by
  unfold bounds?
  simp only [Option.bind_eq_bind, Option.bind_eq_some_iff, Option.pure_def, Option.some.injEq, starts_iff sorted,
    ends_iff sorted]
  constructor
  · intro ⟨leading, head, stop, ends, same⟩
    exact ⟨_, stop, ⟨leading, head, rfl⟩, ends, same.symm⟩
  · intro ⟨start, stop, ⟨leading, head, starts⟩, ends, same⟩
    cases starts
    exact ⟨leading, head, stop, ends, same.symm⟩

theorem Starts.exists (placed : labels ≠ []) : ∃ start, Starts labels range start := by
  obtain ⟨leading, head⟩ := Option.isSome_iff_exists.mp (List.isSome_head?.mpr placed)
  exact ⟨_, (starts_iff sorted).mpr ⟨leading, head, rfl⟩⟩

theorem Starts.unique {other : PlacedLabel} (starts : Starts labels range start)
    (also : Starts labels range other) : start = other := by
  obtain ⟨leading, head, same⟩ := (starts_iff sorted).mp starts
  obtain ⟨again, front, equal⟩ := (starts_iff sorted).mp also
  cases head.symm.trans front
  exact same.symm.trans equal

/-- A range has an end exactly if a label comes after its start. -/
theorem ends_exists : (∃ stop, Ends labels range start stop) ↔ ∃ label ∈ labels, start.index < label.index := by
  constructor
  · intro ⟨stop, ends⟩
    exact ⟨stop, ends.listed, ends.behind⟩
  · intro ⟨label, listed, behind⟩
    simp only [ends_iff sorted]
    apply Option.isSome_iff_exists.mp
    simpa using Or.inr ⟨label, listed, behind⟩

/-- The end is where it should be exactly in the unambiguous case. -/
theorem unambiguous_iff : Unambiguous labels range ↔ ∀ start stop, Starts labels range start →
    (Ends labels range start stop ↔ Stops labels range start stop) := by
  constructor
  · intro unambiguous start stop starts
    by_cases after : ∃ label ∈ labels, range.last < label.index
    · exact ends_iff_stops_of_after after
    · apply ends_iff_stops_of_single
      · simpa using after
      · exact unambiguous.resolve_left after start starts
  · intro agree
    by_cases after : ∃ label ∈ labels, range.last < label.index
    · exact .inl after
    · refine .inr ?_
      intro start starts first listed second also behind later
      obtain ⟨stop, ends⟩ := (ends_exists sorted).mpr ⟨first, listed, behind⟩
      -- The end is the lowest label after the start and the highest of all, so there is no other.
      have only {label : PlacedLabel} (listed : label ∈ labels) (behind : start.index < label.index) :
          label.index = stop.index := by
        cases (agree start stop starts).mp ends with
        | after nearest => exact absurd ⟨stop, nearest.listed, nearest.found.2⟩ after
        | trailing _ _ highest =>
          cases ends with
          | after nearest => exact absurd ⟨stop, nearest.listed, nearest.found.2⟩ after
          | next _ nearest =>
            exact Nat.le_antisymm (highest.highest label listed trivial) (nearest.lowest label listed behind)
      exact eq_of_index sorted listed also ((only listed behind).trans (only also later).symm)

end Sorted

end LiveRange
end Bytecode
