import Mathlib.Data.List.Forall2

/-! Lists related entry by entry: what the relation of two lists says of an entry of either,
and how it composes. -/

namespace Bytecode
open List

variable {α β γ δ : Type}

theorem forall₂_getElem? {relation : α → β → Prop} {first : List α} {second : List β}
    (related : Forall₂ relation first second) (index : Nat) :
    Option.Rel relation first[index]? second[index]? := by
  induction related generalizing index with
  | nil => exact .none
  | cons head _ ih =>
    cases index with
    | zero => exact .some head
    | succ index => exact ih index

theorem forall₂_held {relation : α → β → Prop} {first : List α} {second : List β}
    (related : Forall₂ relation first second) {index : Nat} {value : α}
    (held : first[index]? = some value) : ∃ other, second[index]? = some other ∧ relation value other := by
  have entries := forall₂_getElem? related index
  rw [held] at entries
  generalize found : second[index]? = entry at entries
  cases entries with
  | some related => exact ⟨_, rfl, related⟩

theorem forall₂_mem_right {relation : α → β → Prop} {first : List α} {second : List β}
    (related : Forall₂ relation first second) {value : β} (listed : value ∈ second) :
    ∃ other ∈ first, relation other value := by
  induction related with
  | nil => cases listed
  | cons head _ ih =>
    rcases List.mem_cons.mp listed with rfl | later
    · exact ⟨_, List.mem_cons_self, head⟩
    · obtain ⟨other, among, step⟩ := ih later
      exact ⟨other, List.mem_cons_of_mem _ among, step⟩

theorem forall₂_mapIdx {relation : α → β → Prop} {related : γ → δ → Prop} {f : Nat → α → γ}
    {g : Nat → β → δ} (step : ∀ index value other, relation value other →
      related (f index value) (g index other))
    {first : List α} {second : List β} (lists : Forall₂ relation first second) :
    Forall₂ related (first.mapIdx f) (second.mapIdx g) := by
  induction lists generalizing f g with
  | nil => exact .nil
  | cons head _ ih =>
    rw [List.mapIdx_cons, List.mapIdx_cons]
    exact .cons (step 0 _ _ head) (ih fun index => step (index + 1))

theorem forall₂_comp {lower : α → β → Prop} {upper : β → γ → Prop} {both : α → γ → Prop}
    (step : ∀ value other last, lower value other → upper other last → both value last)
    {first : List α} {second : List β} {third : List γ} (below : Forall₂ lower first second)
    (above : Forall₂ upper second third) : Forall₂ both first third := by
  induction below generalizing third with
  | nil =>
    cases above
    exact .nil
  | cons head _ ih =>
    cases above with
    | cons next rest => exact .cons (step _ _ _ head next) (ih rest)

theorem forall₂_antisymm {relation : α → α → Prop}
    (step : ∀ value other, relation value other → relation other value → value = other)
    {first second : List α} (below : Forall₂ relation first second) (above : Forall₂ relation second first) :
    first = second := by
  induction below with
  | nil => rfl
  | cons head _ ih =>
    obtain ⟨back, rest⟩ := List.forall₂_cons.mp above
    rw [step _ _ head back, ih rest]

theorem forall₂_append_split {relation : α → β → Prop} {first second : List α} {third fourth : List β}
    (same : first.length = third.length) (related : Forall₂ relation (first ++ second) (third ++ fourth)) :
    Forall₂ relation first third ∧ Forall₂ relation second fourth := by
  have upper := forall₂_take_append _ _ _ related
  have lower := forall₂_drop_append _ _ _ related
  simp only [← same, List.take_left, List.drop_left] at upper lower
  exact ⟨upper, lower⟩

theorem forall₂_append_right {relation : α → β → Prop} {first : List α} {second third : List β}
    (related : Forall₂ relation first (second ++ third)) :
    ∃ upper lower, first = upper ++ lower ∧ Forall₂ relation upper second ∧ Forall₂ relation lower third := by
  have length : (first.take second.length).length = second.length := by
    have same := related.length_eq
    simp only [List.length_append] at same
    simp only [List.length_take]
    omega
  rw [← List.take_append_drop second.length first] at related
  obtain ⟨upper, lower⟩ := forall₂_append_split length related
  exact ⟨_, _, (List.take_append_drop second.length first).symm, upper, lower⟩

theorem forall₂_exists {relation : α → β → Prop} {f : β → γ} {first : List α} {third : List γ} :
    Forall₂ (fun value last => ∃ other, relation value other ∧ f other = last) first third ↔
      ∃ second, Forall₂ relation first second ∧ second.map f = third := by
  constructor
  · intro related
    induction related with
    | nil => exact ⟨[], .nil, rfl⟩
    | cons head _ ih =>
      obtain ⟨other, step, rfl⟩ := head
      obtain ⟨others, rest, rfl⟩ := ih
      exact ⟨other :: others, .cons step rest, rfl⟩
  · intro related
    obtain ⟨second, related, rfl⟩ := related
    exact forall₂_map_right_iff.mpr (related.imp fun _ other step => ⟨other, step, rfl⟩)

end Bytecode
