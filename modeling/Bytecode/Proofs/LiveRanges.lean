import Mathlib.Order.Bounds.Basic
import Bytecode.Proofs.FrameMerges
import Bytecode.Slots.LiveRange

/-! What a live range says of the frames. It begins where a slot first holds a value that a variable can
have and goes on as long as the values can be seen as one; its descriptor is that of the least value above
them all, in whatever order they are merged. -/

namespace Bytecode
open Verify (Frame Value)

namespace Verify.Value
variable {value bound other : Value} {values : List Value}

/-- The least value above some. -/
structure Least (values : List Value) (least : Value) : Prop where
  above : ∀ value ∈ values, value.Below least
  least : ∀ upper, (∀ value ∈ values, value.Below upper) → least.Below upper

theorem Least.unique (least : Least values bound) (also : Least values other) : bound = other :=
  (least.least other also.above).antisymm (also.least bound least.above)

/-- What values that come in one after another merge to; the first is taken as it is. -/
def mergeAll? : List Value → Option Value
  | [] => none
  | first :: rest => rest.foldlM merge first

/-- Nothing is below every value. -/
theorem not_least_nil : ¬ Least [] bound := by
  intro least
  have lower : bound.Below int := least.least int nofun
  have other : bound.Below float := least.least float nofun
  rw [below_iff] at lower other
  grind

theorem least_of_merge {first next middle : Value} {rest : List Value} (joined : first.merge next = some middle) :
    Least (middle :: rest) bound ↔ Least (first :: next :: rest) bound := by
  have above (upper : Value) : (∀ value ∈ middle :: rest, value.Below upper) ↔
      ∀ value ∈ first :: next :: rest, value.Below upper := by
    obtain ⟨lower, other⟩ := merge_upper joined
    simp only [List.forall_mem_cons, ← and_assoc]
    refine and_congr_left fun _ => ⟨fun below => ⟨lower.trans below, other.trans below⟩, fun below => ?_⟩
    exact merge_least joined below.1 below.2
  constructor
  · exact fun least => ⟨(above bound).mp least.above, fun upper lower => least.least upper ((above upper).mpr lower)⟩
  · exact fun least => ⟨(above bound).mpr least.above, fun upper lower => least.least upper ((above upper).mp lower)⟩

/-- Values merge exactly if there is a least one above them, and then to that one. -/
theorem mergeAll?_eq_some_iff : mergeAll? values = some bound ↔ Least values bound := by
  cases values with
  | nil => exact iff_of_false nofun not_least_nil
  | cons first rest =>
    show rest.foldlM merge first = some bound ↔ _
    induction rest generalizing first with
    | nil =>
      constructor
      · intro same
        cases same
        exact ⟨by simp [Below.refl], by simp⟩
      · intro least
        have single : Least [first] first := ⟨by simp [Below.refl], by simp⟩
        exact congrArg some (single.unique least)
    | cons next rest ih =>
      rw [List.foldlM_cons]
      cases joined : first.merge next with
      | some middle =>
        rw [Option.bind_eq_bind, Option.bind_some, ih, least_of_merge joined]
      | none =>
        refine iff_of_false nofun fun least => ?_
        obtain ⟨merged, also⟩ := merge_of_below (least.above first List.mem_cons_self)
          (least.above next (List.mem_cons_of_mem _ List.mem_cons_self))
        cases joined.symm.trans also

/-- Only which values come in matters. -/
theorem Least.congr {order : List Value} (least : Least values bound) (same : ∀ value, value ∈ order ↔ value ∈ values) :
    Least order bound := by
  refine ⟨fun value listed => least.above value ((same value).mp listed), ?_⟩
  exact fun upper above => least.least upper fun value listed => above value ((same value).mpr listed)

/-- A variable that can hold a value can hold what it merges to. -/
theorem Below.described (below : value.Below bound) (described : value.descriptor?.isSome = true) :
    bound.descriptor?.isSome = true := by
  rcases below_iff.mp below with rfl | ⟨_, name, rfl⟩ | ⟨_, rfl⟩
  · exact described
  · rfl
  · rfl

end Verify.Value

namespace LiveRange
variable {frames : List (Option Frame)} {slot index : Nat} {value other bound : Value}

/-- There is a frame at the index, and the slot holds a value there that a variable can have. -/
def Shows (frames : List (Option Frame)) (slot index : Nat) (value : Value) : Prop :=
  ∃ frame, frames[index]? = some (some frame) ∧ frame.locals[slot]? = some value ∧
    value.descriptor?.isSome = true

/-- The range begins at the first index that shows a value, and takes in the values shown from there on, one
after another. They have a least value above them, whatever the order in which they are merged, and what is
shown behind the last of them, if anything, does not merge with it. -/
structure Spans (range : LiveRange) (frames : List (Option Frame)) (slot : Nat) (values : List Value)
    (bound : Value) : Prop where
  first : IsLeast {index | ∃ value, Shows frames slot index value} range.first
  shown : ∀ offset value, values[offset]? = some value → Shows frames slot (range.first + offset) value
  last : range.first + values.length = range.last + 1
  least : Value.Least values bound
  merged : ∀ order, order.Perm values → Value.mergeAll? order = some bound
  descriptor : bound.descriptor? = some range.descriptor
  maximal : ∀ value, Shows frames slot (range.last + 1) value → bound.merge value = none

theorem Shows.unique (shows : Shows frames slot index value) (also : Shows frames slot index other) :
    value = other := by
  obtain ⟨frame, known, held, _⟩ := shows
  obtain ⟨_, again, kept, _⟩ := also
  cases known.symm.trans again
  exact Option.some.inj (held.symm.trans kept)

theorem Shows.described (shows : Shows frames slot index value) : value.descriptor?.isSome = true := by
  obtain ⟨_, _, _, described⟩ := shows
  exact described

theorem shows_iff : Shows frames slot index value ↔
    (frames.map (valueAt? slot))[index]? = some (some value) := by
  simp only [List.getElem?_map, Option.map_eq_some_iff, valueAt?, Option.filter_eq_some_iff,
    Option.bind_eq_some_iff, Frame.local?]
  constructor
  · rintro ⟨frame, known, held, described⟩
    exact ⟨_, known, ⟨frame, rfl, held⟩, described⟩
  · rintro ⟨_, known, ⟨frame, rfl, held⟩, described⟩
    exact ⟨frame, known, held, described⟩

/-- What is taken on from a list: as much from its front as merges, one value after another. -/
theorem extend_run (merged : Value) (last : Nat) (list : List (Option Value)) : ∃ taken rest bound,
    list = taken.map some ++ rest ∧ extend merged last list = (bound, last + taken.length) ∧
      Value.mergeAll? (merged :: taken) = some bound ∧
      ∀ value, rest.head? = some (some value) → bound.merge value = none := by
  induction list generalizing merged last with
  | nil => exact ⟨[], [], merged, rfl, rfl, rfl, nofun⟩
  | cons entry rest ih =>
    cases entry with
    | none => exact ⟨[], none :: rest, merged, rfl, rfl, rfl, nofun⟩
    | some value =>
      cases joined : merged.merge value with
      | none =>
        refine ⟨[], some value :: rest, merged, rfl, by simp [extend, joined], rfl, ?_⟩
        intro other front
        cases front
        exact joined
      | some middle =>
        obtain ⟨taken, left, bound, rfl, extended, together, ended⟩ := ih middle (last + 1)
        refine ⟨value :: taken, left, bound, rfl, ?_, ?_, ended⟩
        · rw [extend, joined]
          simp only [extended, List.length_cons]
          congr 1
          omega
        · rw [← together]
          simp [Value.mergeAll?, joined]

theorem infer?_eq_some_iff {range : LiveRange} : infer? frames slot = some range ↔ ∃ value merged,
    (frames.map (valueAt? slot)).findIdx? (·.isSome) = some range.first ∧
    Shows frames slot range.first value ∧
    extend value range.first ((frames.map (valueAt? slot)).drop (range.first + 1)) = (merged, range.last) ∧
    merged.descriptor? = some range.descriptor := by
  obtain ⟨start, stop, descriptor⟩ := range
  unfold infer?
  simp only [Option.bind_eq_bind, Option.bind_eq_some_iff, Option.join_eq_some_iff, ← shows_iff, Option.pure_def,
    Option.some.injEq, mk.injEq]
  constructor
  · rintro ⟨first, found, value, shows, text, described, rfl, rfl, rfl⟩
    exact ⟨value, _, found, shows, rfl, described⟩
  · rintro ⟨value, merged, found, shows, extended, described⟩
    exact ⟨start, found, value, shows, descriptor, by rw [extended]; exact described, rfl,
      congrArg Prod.snd extended, rfl⟩

/-- The first index that shows a value. -/
theorem findIdx?_shows {first : Nat} : (frames.map (valueAt? slot)).findIdx? (·.isSome) = some first ↔
    IsLeast {index | ∃ value, Shows frames slot index value} first := by
  have shown (index : Nat) : (∃ value, Shows frames slot index value) ↔
      ∃ inside : index < (frames.map (valueAt? slot)).length,
        (frames.map (valueAt? slot))[index].isSome = true := by
    simp only [shows_iff, List.getElem?_eq_some_iff, Option.isSome_iff_exists]
    exact ⟨fun ⟨value, inside, held⟩ => ⟨inside, value, held⟩, fun ⟨inside, value, held⟩ => ⟨value, inside, held⟩⟩
  rw [List.findIdx?_eq_some_iff_getElem]
  constructor
  · rintro ⟨inside, here, earlier⟩
    refine ⟨(shown first).mpr ⟨inside, here⟩, ?_⟩
    intro index showing
    obtain ⟨within, there⟩ := (shown index).mp showing
    by_contra ahead
    exact earlier index (Nat.lt_of_not_le ahead) there
  · rintro ⟨here, least⟩
    obtain ⟨inside, here⟩ := (shown first).mp here
    refine ⟨inside, here, ?_⟩
    intro index before there
    exact absurd (least ((shown index).mpr ⟨Nat.lt_trans before inside, there⟩)) (Nat.not_le_of_lt before)

theorem infer?_spans {range : LiveRange} (inferred : infer? frames slot = some range) :
    ∃ values bound, range.Spans frames slot values bound := by
  obtain ⟨value, merged, found, shows, extended, described⟩ := infer?_eq_some_iff.mp inferred
  obtain ⟨taken, rest, bound, split, stretched, together, ended⟩ := extend_run value range.first
    ((frames.map (valueAt? slot)).drop (range.first + 1))
  obtain ⟨rfl, last⟩ := Prod.mk.inj (extended.symm.trans stretched)
  have least := Value.mergeAll?_eq_some_iff.mp together
  have behind (offset : Nat) (other : Value) : Shows frames slot (range.first + 1 + offset) other ↔
      (taken.map some ++ rest)[offset]? = some (some other) := by
    rw [← split, List.getElem?_drop, shows_iff]
  refine ⟨value :: taken, merged, findIdx?_shows.mp found, ?_, ?_, least, ?_, described, ?_⟩
  · intro offset other listed
    cases offset with
    | zero =>
      cases listed
      exact shows
    | succ offset =>
      have stands : taken[offset]? = some other := listed
      have inside : offset < (taken.map some).length := by
        simpa using (List.getElem?_eq_some_iff.mp stands).1
      rw [Nat.add_comm offset 1, ← Nat.add_assoc, behind, List.getElem?_append_left inside, List.getElem?_map, stands]
      rfl
  · rw [last, List.length_cons]
    omega
  · intro order same
    exact Value.mergeAll?_eq_some_iff.mpr (least.congr fun _ => same.mem_iff)
  · intro other showing
    apply ended other
    rw [last, Nat.add_right_comm] at showing
    have stands := (behind taken.length other).mp showing
    rwa [List.getElem?_append_right (by simp), List.length_map, Nat.sub_self, ← List.head?_eq_getElem?] at stands

namespace Spans
variable {range longer : LiveRange} {values others : List Value} {bound upper : Value}

/-- No run of values that can be seen as one goes on behind the range. -/
theorem length_le (spans : range.Spans frames slot values bound) (also : longer.Spans frames slot others upper) :
    others.length ≤ values.length := by
  by_contra more
  have start := spans.first.unique also.first
  obtain ⟨value, next⟩ : ∃ value, others[values.length]? = some value :=
    ⟨_, List.getElem?_eq_getElem (Nat.lt_of_not_le more)⟩
  have shows := also.shown values.length value next
  rw [← start, spans.last] at shows
  have lower : bound.Below upper := by
    apply spans.least.least
    intro held listed
    obtain ⟨offset, stands⟩ := List.mem_iff_getElem?.mp listed
    have inside : offset < values.length := (List.getElem?_eq_some_iff.mp stands).1
    obtain ⟨other, there⟩ : ∃ other, others[offset]? = some other :=
      ⟨_, List.getElem?_eq_getElem (Nat.lt_trans inside (Nat.lt_of_not_le more))⟩
    have same := (spans.shown offset held stands).unique (start ▸ also.shown offset other there)
    exact also.least.above held (same ▸ List.mem_of_getElem? there)
  obtain ⟨merged, joined⟩ := Value.merge_of_below lower (also.least.above value (List.mem_of_getElem? next))
  cases joined.symm.trans (spans.maximal value shows)

theorem unique (spans : range.Spans frames slot values bound) (also : longer.Spans frames slot others upper) :
    range = longer := by
  have start := spans.first.unique also.first
  have length := Nat.le_antisymm (also.length_le spans) (spans.length_le also)
  have same : values = others := by
    apply List.ext_getElem length
    intro offset inside within
    apply (spans.shown offset _ (List.getElem?_eq_getElem inside)).unique
    rw [start]
    exact also.shown offset _ (List.getElem?_eq_getElem within)
  subst same
  obtain rfl := spans.least.unique also.least
  have stop : range.last = longer.last := by
    have ends := spans.last
    have finish := also.last
    omega
  have text := Option.some.inj (spans.descriptor.symm.trans also.descriptor)
  cases range
  cases longer
  exact mk.injEq .. ▸ ⟨start, stop, text⟩

end Spans

theorem Shows.infer? (shows : Shows frames slot index value) : ∃ range, infer? frames slot = some range := by
  have found : ((frames.map (valueAt? slot)).findIdx? (·.isSome)).isSome = true := by
    rw [List.findIdx?_isSome, List.any_eq_true]
    exact ⟨some value, List.mem_of_getElem? (shows_iff.mp shows), rfl⟩
  obtain ⟨first, found⟩ := Option.isSome_iff_exists.mp found
  obtain ⟨start, there⟩ := (findIdx?_shows.mp found).1
  obtain ⟨taken, rest, bound, _, extended, together, _⟩ :=
    extend_run start first ((frames.map (valueAt? slot)).drop (first + 1))
  have below : start.Below bound := (Value.mergeAll?_eq_some_iff.mp together).above start List.mem_cons_self
  obtain ⟨descriptor, known⟩ := Option.isSome_iff_exists.mp (below.described there.described)
  exact ⟨⟨first, first + taken.length, descriptor⟩,
    infer?_eq_some_iff.mpr ⟨start, bound, found, there, extended, known⟩⟩

/-- There is a live range exactly if a value is shown, and then it is the one that the values span. -/
theorem infer?_exact (frames : List (Option Frame)) (slot : Nat) :
    (infer? frames slot = none ↔ ∀ index value, ¬ Shows frames slot index value) ∧
      ∀ range, infer? frames slot = some range ↔ ∃ values bound, range.Spans frames slot values bound := by
  constructor
  · constructor
    · intro none index value shows
      obtain ⟨range, inferred⟩ := shows.infer?
      cases none.symm.trans inferred
    · intro nothing
      by_contra found
      obtain ⟨range, inferred⟩ := Option.ne_none_iff_exists'.mp found
      obtain ⟨values, bound, spans⟩ := infer?_spans inferred
      obtain ⟨value, shows⟩ := spans.first.1
      exact nothing _ value shows
  · intro range
    refine ⟨infer?_spans, ?_⟩
    rintro ⟨values, bound, spans⟩
    obtain ⟨value, shows⟩ := spans.first.1
    obtain ⟨other, inferred⟩ := shows.infer?
    obtain ⟨_, _, also⟩ := infer?_spans inferred
    rw [inferred, spans.unique also]

/-- A null gives way to an object, two classes to that of all objects; a number ends the range. -/
example : infer? [none, some ⟨[.null], []⟩, some ⟨[.reference "A"], []⟩, some ⟨[.reference "B"], []⟩,
    some ⟨[.int], []⟩] 0 = some ⟨1, 3, "Ljava/lang/Object;"⟩ := by decide +kernel

end LiveRange
end Bytecode
