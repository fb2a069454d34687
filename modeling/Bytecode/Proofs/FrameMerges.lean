import Bytecode.Proofs.FrameOrder

/-! Merging as an operation on frames of one width. Some frames merge exactly if there is a frame above
all of them, and then to the least one, so neither their order nor their grouping matters. -/

namespace Bytecode.Verify
open List

namespace Value

/-- A null or an initialized object. -/
def IsObject (value : Value) : Prop := value = null ∨ ∃ name, value = reference name

/-- Values that can be seen as one. -/
def Compatible (left right : Value) : Prop := left = right ∨ left.IsObject ∧ right.IsObject

theorem merge_defined_iff {left right : Value} :
    (∃ merged, left.merge right = some merged) ↔ left.Compatible right := by
  unfold Compatible IsObject
  by_cases same : left = right
  · simp [same]
  · cases left <;> cases right <;> simp_all [merge]

theorem Below.antisymm {first second : Value} (lower : first.Below second) (upper : second.Below first) :
    first = second := by
  have same : some first = some second := by
    rw [← show second.merge first = some first from upper, merge_comm]
    exact lower
  exact Option.some.inj same

theorem BelowLocal.antisymm {first second : Value} (lower : first.BelowLocal second)
    (upper : second.BelowLocal first) : first = second := by
  rcases lower with rfl | lower
  · exact upper.elim id Below.of_empty
  · rcases upper with rfl | upper
    · exact lower.of_empty.symm
    · exact lower.antisymm upper

end Value

theorem mergeStack_defined_iff {left right : List Value} (same : left.length = right.length) :
    (∃ merged, mergeStack left right = .ok merged) ↔ Forall₂ Value.Compatible left right := by
  induction left generalizing right with
  | nil =>
    obtain rfl : right = [] := List.length_eq_zero_iff.mp same.symm
    exact iff_of_true ⟨[], rfl⟩ .nil
  | cons value rest ih =>
    obtain ⟨other, others, rfl⟩ := List.exists_cons_of_length_eq_add_one same.symm
    rw [List.forall₂_cons, ← ih (by simpa using same), ← Value.merge_defined_iff]
    simp only [mergeStack]
    cases mergeStack rest others with
    | error => simp
    | ok below => cases value.merge other <;> simp

namespace Frame
variable {frame incoming merged lower upper : Frame}

theorem Below.antisymm (below : lower.Below upper) (above : upper.Below lower) : lower = upper := by
  have locals := forall₂_antisymm (fun _ _ => Value.BelowLocal.antisymm) below.locals above.locals
  have stack := forall₂_antisymm (fun _ _ => Value.Below.antisymm) below.stack above.stack
  cases lower
  cases upper
  exact congrArg₂ Frame.mk locals stack

theorem Below.width (below : lower.Below upper) : lower.locals.length = upper.locals.length :=
  below.locals.length_eq

theorem merge_defined_iff :
    (∃ merged, frame.merge incoming = .ok merged) ↔ Forall₂ Value.Compatible frame.stack incoming.stack := by
  by_cases tall : frame.stack.length = incoming.stack.length
  · rw [← mergeStack_defined_iff tall]
    simp only [merge, tall, ne_eq, not_true_eq_false, if_false]
    cases mergeStack frame.stack incoming.stack <;> simp
  · refine iff_of_false ?_ fun related => tall related.length_eq
    simp [merge, tall]

section
variable (same : frame.locals.length = incoming.locals.length)
include same

theorem merge_below_iff (joined : frame.merge incoming = .ok merged) :
    merged.Below upper ↔ frame.Below upper ∧ incoming.Below upper := by
  obtain ⟨first, second, least⟩ := merge_ok same joined
  exact ⟨fun below => ⟨first.trans below, second.trans below⟩, fun below => least upper below.1 below.2⟩

/-- A merge changes a frame unless the frame absorbs what comes in. -/
theorem absorbs_iff_of_merge (joined : frame.merge incoming = .ok merged) :
    frame.absorbs incoming = true ↔ merged = frame := by
  obtain ⟨first, second, least⟩ := merge_ok same joined
  constructor
  · intro absorbed
    have tall := (merge_defined_iff.mp ⟨merged, joined⟩).length_eq
    have below := absorbs_below same tall absorbed
    exact (least frame (.refl frame) below).antisymm first
  · rintro rfl
    exact absorbs_of_below second

end

theorem merge_self (frame : Frame) : frame.merge frame = .ok frame := by
  obtain ⟨merged, joined⟩ := merge_of_below (.refl frame) (.refl frame)
  rw [joined, (absorbs_iff_of_merge rfl joined).mp (absorbs_of_below (.refl frame))]

/-- The order is that of merging: the upper frame takes the lower one in unchanged. -/
theorem below_iff_merge :
    lower.Below upper ↔ lower.locals.length = upper.locals.length ∧ upper.merge lower = .ok upper := by
  constructor
  · intro below
    obtain ⟨merged, joined⟩ := merge_of_below (.refl upper) below
    rw [joined, (absorbs_iff_of_merge below.width.symm joined).mp (absorbs_of_below below)]
    exact ⟨below.width, rfl⟩
  · intro taken
    exact (merge_ok taken.1.symm taken.2).2.1

/-- The least frame above some. -/
structure Least (frames : List Frame) (least : Frame) : Prop where
  above : ∀ frame ∈ frames, frame.Below least
  least : ∀ upper, (∀ frame ∈ frames, frame.Below upper) → least.Below upper

/-- The merge of two frames, if they merge. -/
def merge? (frame incoming : Frame) : Option Frame := (frame.merge incoming).toOption

/-- What frames that come in one after another merge to; the first is taken as it is. -/
def mergeAll? : List Frame → Option Frame
  | [] => none
  | first :: rest => rest.foldlM merge? first

theorem merge?_eq_some_iff : frame.merge? incoming = some merged ↔ frame.merge incoming = .ok merged := by
  unfold merge?
  cases frame.merge incoming <;> simp [Except.toOption]

theorem Least.congr {first second : List Frame}
    (same : ∀ upper, (∀ frame ∈ first, frame.Below upper) ↔ ∀ frame ∈ second, frame.Below upper) :
    Least first merged ↔ Least second merged := by
  constructor
  · exact fun least => ⟨(same merged).mp least.above, fun upper above => least.least upper ((same upper).mpr above)⟩
  · exact fun least => ⟨(same merged).mpr least.above, fun upper above => least.least upper ((same upper).mp above)⟩

theorem least_singleton : Least [frame] merged ↔ frame = merged := by
  constructor
  · intro least
    exact (least.above frame List.mem_cons_self).antisymm (least.least frame (by simp [Below.refl]))
  · rintro rfl
    exact ⟨by simp [Below.refl], by simp⟩

variable {width : Nat}

theorem mergeAll?_eq_some_iff {first : Frame} {rest : List Frame} (wide : first.locals.length = width)
    (widths : ∀ frame ∈ rest, frame.locals.length = width) :
    mergeAll? (first :: rest) = some merged ↔ Least (first :: rest) merged := by
  show rest.foldlM merge? first = some merged ↔ _
  induction rest generalizing first with
  | nil => simp [least_singleton]
  | cons next rest ih =>
    obtain ⟨other, widths⟩ := List.forall_mem_cons.mp widths
    rw [List.foldlM_cons]
    cases joined : first.merge next with
    | ok middle =>
      rw [merge?_eq_some_iff.mpr joined, Option.bind_eq_bind, Option.bind_some,
        ih ((merge_locals_length joined).trans wide) widths]
      apply Least.congr
      intro upper
      simp only [List.forall_mem_cons, merge_below_iff (wide.trans other.symm) joined, and_assoc]
    | error failure =>
      -- frames that do not merge have nothing above both
      refine iff_of_false (by simp [merge?, joined, Except.toOption]) fun least => ?_
      obtain ⟨middle, also⟩ := merge_of_below (least.above first List.mem_cons_self)
        (least.above next (List.mem_cons_of_mem _ List.mem_cons_self))
      cases joined.symm.trans also

/-- Only which frames come in matters, not when or how often. -/
theorem mergeAll?_congr {first second : List Frame} (widths : ∀ frame ∈ first, frame.locals.length = width)
    (same : ∀ frame, frame ∈ first ↔ frame ∈ second) : mergeAll? first = mergeAll? second := by
  cases first with
  | nil =>
    obtain rfl : second = [] := List.eq_nil_iff_forall_not_mem.mpr fun frame listed => by
      simpa using (same frame).mpr listed
    rfl
  | cons head rest =>
    cases second with
    | nil => exact absurd ((same head).mp List.mem_cons_self) (by simp)
    | cons other others =>
      have also (frame : Frame) (listed : frame ∈ other :: others) : frame.locals.length = width :=
        widths frame ((same frame).mpr listed)
      apply Option.ext
      intro merged
      rw [mergeAll?_eq_some_iff (widths head List.mem_cons_self) fun frame listed =>
          widths frame (List.mem_cons_of_mem _ listed),
        mergeAll?_eq_some_iff (also other List.mem_cons_self) fun frame listed =>
          also frame (List.mem_cons_of_mem _ listed)]
      apply Least.congr
      intro upper
      simp only [same]

theorem merge?_eq_mergeAll? (frame incoming : Frame) : frame.merge? incoming = mergeAll? [frame, incoming] := by
  simp [mergeAll?]

theorem merge?_comm (wide : frame.locals.length = width) (other : incoming.locals.length = width) :
    frame.merge? incoming = incoming.merge? frame := by
  rw [merge?_eq_mergeAll?, merge?_eq_mergeAll?]
  have widths : ∀ single ∈ [frame, incoming], single.locals.length = width := by simp [wide, other]
  exact mergeAll?_congr widths (by simp [or_comm])

theorem merge?_assoc {third : Frame} (wide : frame.locals.length = width)
    (other : incoming.locals.length = width) (last : third.locals.length = width) :
    (frame.merge? incoming).bind (·.merge? third) = (incoming.merge? third).bind (frame.merge? ·) := by
  have widths : ∀ single ∈ [frame, incoming, third], single.locals.length = width := by
    simp [wide, other, last]
  calc (frame.merge? incoming).bind (·.merge? third)
      = mergeAll? [frame, incoming, third] := by simp [mergeAll?]
    _ = mergeAll? [incoming, third, frame] := mergeAll?_congr widths (by simp [or_comm, or_left_comm])
    _ = (incoming.merge? third).bind (·.merge? frame) := by simp [mergeAll?]
    _ = (incoming.merge? third).bind (frame.merge? ·) := by
      refine Option.bind_congr fun middle joined => ?_
      have same := merge_locals_length (merge?_eq_some_iff.mp joined)
      exact merge?_comm (same.trans other) wide

/-- Merging is a join of the frames of a width, where there is one. -/
structure Joins (width : Nat) : Prop where
  least : ∀ frame incoming merged : Frame, frame.locals.length = width → incoming.locals.length = width →
    frame.merge incoming = .ok merged → frame.Below merged ∧ incoming.Below merged ∧
      ∀ upper, frame.Below upper → incoming.Below upper → merged.Below upper
  changes : ∀ frame incoming merged : Frame, frame.locals.length = width → incoming.locals.length = width →
    frame.merge incoming = .ok merged → (frame.absorbs incoming = false ↔ merged ≠ frame)
  defined : ∀ frame incoming : Frame, frame.locals.length = width → incoming.locals.length = width →
    ((∃ merged, frame.merge incoming = .ok merged) ↔ frame.stack.length = incoming.stack.length ∧
      ∀ (depth : Nat) value other, frame.stack[depth]? = some value → incoming.stack[depth]? = some other →
        value.Compatible other)
  idempotent : ∀ frame : Frame, frame.locals.length = width → frame.merge frame = .ok frame
  commutative : ∀ frame incoming : Frame, frame.locals.length = width → incoming.locals.length = width →
    frame.merge? incoming = incoming.merge? frame
  associative : ∀ frame incoming third : Frame, frame.locals.length = width → incoming.locals.length = width →
    third.locals.length = width →
      (frame.merge? incoming).bind (·.merge? third) = (incoming.merge? third).bind (frame.merge? ·)
  gathers : ∀ (first : Frame) (rest : List Frame) (merged : Frame),
    (∀ frame ∈ first :: rest, frame.locals.length = width) →
      (mergeAll? (first :: rest) = some merged ↔ Least (first :: rest) merged)
  orderless : ∀ first second : List Frame, (∀ frame ∈ first, frame.locals.length = width) →
    (∀ frame, frame ∈ first ↔ frame ∈ second) → mergeAll? first = mergeAll? second

/-- Merging gives the least frame above those that merge. -/
theorem merge_joins (width : Nat) : Joins width where
  least frame incoming merged wide other joined := merge_ok (wide.trans other.symm) joined
  changes frame incoming merged wide other joined := by
    rw [ne_eq, ← absorbs_iff_of_merge (wide.trans other.symm) joined, Bool.not_eq_true]
  defined frame incoming _ _ := by
    rw [merge_defined_iff]
    constructor
    · intro related
      refine ⟨related.length_eq, fun depth value other held kept => ?_⟩
      obtain ⟨found, also, compatible⟩ := forall₂_held related held
      cases also.symm.trans kept
      exact compatible
    · rintro ⟨tall, entries⟩
      refine List.forall₂_iff_get.mpr ⟨tall, fun depth inside within => ?_⟩
      exact entries depth _ _ (List.getElem?_eq_getElem inside) (List.getElem?_eq_getElem within)
  idempotent frame _ := merge_self frame
  commutative _ _ := merge?_comm
  associative _ _ _ := merge?_assoc
  gathers first rest merged widths :=
    mergeAll?_eq_some_iff (widths first List.mem_cons_self) fun frame listed =>
      widths frame (List.mem_cons_of_mem _ listed)
  orderless _ _ := mergeAll?_congr

/-- On the stack a null gives way to an object and two classes to that of all objects; a local that one
path leaves a number in is unusable. -/
example : mergeAll? [⟨[.null], [.reference "A"]⟩, ⟨[.int], [.null]⟩, ⟨[.null], [.reference "B"]⟩] =
    some ⟨[.empty], [.reference objectName]⟩ := by decide

end Frame
end Bytecode.Verify
