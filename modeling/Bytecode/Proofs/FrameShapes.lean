import Bytecode.Proofs.HeldValues
import Bytecode.Proofs.TagSoundness
import Bytecode.Proofs.VisitBound

/-! What frames look like at every step of an analysis. They have one local for each slot of the method, no
hole in the stack, and behind the first half of a wide local an unusable one. -/

namespace Bytecode.Verify

theorem Value.isWide_iff {value : Value} : value.isWide = true ↔ value = .long ∨ value = .double := by
  cases value <;> simp [isWide, size]

/-- The second half of a wide local is unusable. -/
def Paired (locals : List Value) : Prop :=
  ∀ slot value, locals[slot]? = some value → value.isWide = true → locals[slot + 1]? = some .empty

theorem Paired.cons {locals : List Value} (paired : Paired locals) (value : Value) :
    Paired (value :: (List.replicate (value.size - 1) .empty ++ locals)) := by
  intro slot held found wide
  cases kind : value.isWide with
  | true =>
    have second : List.replicate (value.size - 1) Value.empty = [.empty] := by
      rw [show value.size = 2 from eq_of_beq kind]
      rfl
    rw [second] at found ⊢
    match slot with
    | 0 => rfl
    | 1 =>
      cases found
      cases wide
    | slot + 2 => exact paired slot held found wide
  | false =>
    have alone : List.replicate (value.size - 1) Value.empty = [] := by
      cases value <;> first | rfl | cases kind
    rw [alone] at found ⊢
    cases slot with
    | zero =>
      cases found
      rw [kind] at wide
      cases wide
    | succ slot => exact paired slot held found wide

theorem Paired.replicate (count : Nat) : Paired (List.replicate count .empty) := by
  intro slot value found wide
  rw [List.eq_of_mem_replicate (List.mem_of_getElem? found)] at wide
  cases wide

theorem Paired.placed {count slot : Nat} {values locals : List Value}
    (placed : placeArguments count slot values = .ok locals) : Paired locals := by
  induction values generalizing slot locals with
  | nil =>
    cases placed
    exact .replicate _
  | cons value rest ih =>
    rw [placeArguments] at placed
    split at placed
    next =>
      obtain ⟨after, laid, rfl⟩ := map_ok.mp placed
      exact (ih laid).cons value
    next => cases placed

/-- A store mends what it breaks: it unsets the first half of a value whose second half it takes, and what is
left of a wide value whose first half it takes is unset already. -/
theorem Paired.store {locals : List Value} (paired : Paired locals) {slot : Nat} {value : Value}
    (inside : slot + value.size ≤ locals.length) : Paired (locals.mapIdx (overwrite slot value)) := by
  intro index held found wide
  rw [List.getElem?_mapIdx] at found ⊢
  obtain ⟨old, present, rfl⟩ := Option.map_eq_some_iff.mp found
  unfold overwrite at wide
  by_cases here : index = slot
  · rw [if_pos here] at wide
    have room : index + 1 < locals.length := by
      have two : value.size = 2 := eq_of_beq wide
      omega
    rw [List.getElem?_eq_getElem room]
    simp [overwrite, here, wide]
  · rw [if_neg here] at wide
    split at wide
    · cases wide
    next next =>
      split at wide
      · cases wide
      next before =>
        have apart : index + 1 ≠ slot := fun same => before ⟨same, wide⟩
        have second := paired index old present wide
        have narrow : Value.empty.isWide = false := rfl
        simp [second, overwrite, apart, here, narrow]

theorem Value.join_isWide {left right : Value} (wide : (left.join right).isWide = true) :
    left.isWide = true ∧ right.isWide = true := by
  unfold join at wide
  cases found : left.merge right with
  | none =>
    rw [found] at wide
    cases wide
  | some merged =>
    rw [found] at wide
    obtain ⟨first, second⟩ := merge_upper found
    rw [first.isWide_eq, second.isWide_eq]
    exact ⟨wide, wide⟩

/-- Locals lose values one by one in a merge, but those that stay wide are wide in both. -/
theorem Paired.merge {lefts rights : List Value} (left : Paired lefts) (right : Paired rights)
    (same : lefts.length = rights.length) : Paired (mergeLocals lefts rights) := by
  intro slot value found wide
  have whole : mergeLocals lefts rights = List.zipWith Value.join lefts rights := by
    simp [mergeLocals, ← same]
  rw [whole] at found ⊢
  obtain ⟨first, second, held, other, rfl⟩ := List.getElem?_zipWith_eq_some.mp found
  obtain ⟨one, both⟩ := Value.join_isWide wide
  rw [List.getElem?_zipWith, left slot first held one, right slot second other both]
  rfl

theorem Paired.replace {frame : Frame} {around : Surroundings} {receiver object : Value}
    (made : around.constructed? receiver = some object) (paired : Paired frame.locals) :
    Paired (frame.replace receiver object).locals := by
  have narrow : object.isWide = false ∧ receiver ≠ .empty := by
    cases receiver with
    | uninitializedThis | uninitialized =>
      cases made
      exact ⟨rfl, nofun⟩
    | _ => cases made
  intro slot value found wide
  simp only [Frame.replace, List.getElem?_map] at found ⊢
  obtain ⟨old, present, rfl⟩ := Option.map_eq_some_iff.mp found
  have kept : old ≠ receiver := by
    intro same
    rw [if_pos same, narrow.1] at wide
    cases wide
  rw [if_neg kept] at wide
  rw [paired slot old present wide, Option.map_some, if_neg narrow.2.symm]

theorem Action.Performs.paired {around : Surroundings} {action : Action} {before after : Frame}
    (performs : Performs around action before after) (paired : Paired before.locals) : Paired after.locals := by
  cases performs with
  | store _ inside => exact paired.store inside
  | @construct _ _ _ receiver object rest locals _ _ made replaced =>
    rw [replaced]
    exact @Paired.replace ⟨locals, rest⟩ _ _ _ made paired
  | _ => exact paired

/-- What an instruction pushes is no hole. -/
theorem Action.result_usable {index : Nat} {instruction : Instruction} {action : Action} {value : Value}
    (known : of? index instruction = some action) (pushed : action.result? = some value) : value ≠ .empty := by
  have tagged {result : Option Value} {results : List Tag} (pushed : result = some value)
      (gives : result.toList.mapM Value.tag? = some results) : value ≠ .empty := by
    rintro rfl
    rw [pushed] at gives
    cases gives
  obtain ⟨rule, found, _⟩ := of?_has known
  cases action with
  | effect | receive | construct =>
    simp only [rule?, Option.bind_eq_bind, Option.bind_eq_some_iff] at found
    obtain ⟨_, _, _, gives, _⟩ := found
    exact tagged pushed gives
  | _ => cases pushed

theorem Frame.torn_locals {frame incoming : Frame} {failure : MergeFailure}
    (failed : frame.merge incoming = .error failure) : failure.remaining.locals = frame.locals := by
  unfold Frame.merge at failed
  split at failed
  · cases failed
    rfl
  · split at failed
    · cases failed
      rfl
    · cases failed

namespace Setting
variable {setting : Setting}

theorem paired_carries (paired : Paired setting.initial.locals) : setting.Carries fun _ frame =>
    frame.locals.length = setting.initial.locals.length ∧ Paired frame.locals where
  initial := ⟨rfl, paired⟩
  width _ _ fits := fits.1
  moves := by
    intro move before incoming fits passes
    refine ⟨passes.width.trans fits.1, ?_⟩
    cases passes with
    | goes _ done =>
      obtain ⟨action, _, performs⟩ := (Action.transfer_follows _ _ _ _).mp done
      exact performs.paired fits.2
    | throws => exact fits.2
  merges := by
    intro index held incoming merged fits fresh joined
    refine ⟨(Frame.merge_locals_length joined).trans fits.1, ?_⟩
    unfold Frame.merge at joined
    split at joined
    · cases joined
    · split at joined
      · cases joined
      · cases joined
        exact fits.2.merge fresh.2 (fits.1.trans fresh.1.symm)

theorem closed_usable (empty : setting.initial.stack = []) : setting.Closed (· ≠ .empty) where
  object := nofun
  initial := ⟨fun _ _ usable => usable, by simp [empty]⟩
  results _ _ _ _ _ known pushed := Action.result_usable known pushed
  elements _ _ _ found := by
    rintro rfl
    have tagged := TagMachine.element_tag found
    cases tagged
  objects receiver _ _ made := by
    rintro rfl
    cases receiver <;> cases made
  caught _ _ := nofun

end Setting

/-- The shape of the frames of a method with so many locals. -/
structure Frame.Shaped (count : Nat) (frame : Frame) : Prop where
  width : frame.locals.length = count
  filled : Value.empty ∉ frame.stack
  paired : ∀ slot value, frame.locals[slot]? = some value → value = .long ∨ value = .double →
    slot + 1 < count ∧ frame.locals[slot + 1]? = some .empty

theorem Frame.Shaped.of_paired {frame : Frame} (filled : frame.Each (· ≠ .empty)) (paired : Paired frame.locals) :
    frame.Shaped frame.locals.length := by
  refine ⟨rfl, fun hole => filled.stack _ hole rfl, ?_⟩
  intro slot value held wide
  have second := paired slot value held (Value.isWide_iff.mpr wide)
  exact ⟨(List.getElem?_eq_some_iff.mp second).1, second⟩

namespace Verifier
variable {verifier : Verifier} {method : Method}

theorem heldAt_shaped {setting : Setting} (prepared : verifier.setting method = .ok setting) {index : Nat}
    {frame : Frame} (held : setting.HeldAt index frame) : frame.Shaped method.maxLocals.toNat := by
  obtain ⟨type, _, built, _, placed, nonempty⟩ := setting_ok prepared
  obtain ⟨width, empty⟩ := initialFrame_ok placed
  have paired : Paired setting.initial.locals := by
    obtain ⟨locals, laid, same⟩ := except_bind_ok.mp placed
    rw [← Except.ok.inj same]
    exact .placed laid
  have carries := (Setting.closed_usable empty).carries.and (Setting.paired_carries paired)
  obtain ⟨⟨same, filled⟩, _, paired⟩ := carries.heldAt (Flow.ofMethod_ok built).2 nonempty (by
    intro index held incoming failure fits fresh failed
    have locals := Frame.torn_locals failed
    rw [locals]
    exact ⟨⟨fits.1.1, fits.1.2.torn nofun fresh.1.2 failed⟩, fits.2⟩) held
  rw [← width, ← same]
  exact .of_paired filled paired

/-- Every frame that an analysis ever holds has the shape of its method, and so have those it returns. -/
theorem frames_shaped (verifier : Verifier) (method : Method) :
    (∀ setting, verifier.setting method = .ok setting →
      ∀ index frame, setting.HeldAt index frame → frame.Shaped method.maxLocals.toNat) ∧
    ∀ frames, verifier.analyze method = .ok frames →
      ∀ index frame, Holds frames index frame → frame.Shaped method.maxLocals.toNat := by
  refine ⟨fun setting prepared index frame held => heldAt_shaped prepared held, ?_⟩
  intro frames accepted index frame held
  obtain ⟨setting, progress, last, prepared, stage, rfl⟩ := analyze_stage (code_of_holds accepted held) accepted
  exact heldAt_shaped prepared (.known stage held)

/-- Stores over the second half of its argument, over the second half of that copy, and up to the last slot. -/
def overlap : Method where
  access := ⟨8⟩
  name := "overlap"
  descriptor := "(J)V"
  signature := none
  exceptions := []
  instructions := #[.label ⟨0⟩, .variable .lload 0, .variable .lstore 1, .simple .iconst0, .variable .istore 2,
    .simple .dconst0, .variable .dstore 2, .label ⟨1⟩, .simple .returnVoid, .label ⟨2⟩, .simple .pop,
    .simple .returnVoid]
  ranges := [⟨⟨0⟩, ⟨1⟩, ⟨2⟩, none⟩]
  variableTable := none
  maxStack := 2
  maxLocals := 4

def overlapVerifier : Verifier := ⟨"Main", 2, 100⟩

theorem frames_shaped_overlap : ∃ frames setting, overlapVerifier.analyze overlap = .ok frames ∧
    overlapVerifier.setting overlap = .ok setting ∧ setting.initial.Shaped 4 ∧
    Holds frames 3 ⟨[.empty, .long, .empty, .empty], []⟩ ∧
    (⟨[.empty, .long, .empty, .empty], []⟩ : Frame).Shaped 4 := by
  have found : (overlapVerifier.analyze overlap).toOption.bind (·[3]?) =
      some (some ⟨[.empty, .long, .empty, .empty], []⟩) := by decide +kernel
  cases accepted : overlapVerifier.analyze overlap with
  | error rejection =>
    rw [accepted] at found
    cases found
  | ok frames =>
    rw [accepted] at found
    obtain ⟨setting, _, _, prepared, _⟩ := analyze_stage (by decide) accepted
    obtain ⟨_, _, _, _, _, nonempty⟩ := setting_ok prepared
    have first : setting.HeldAt 0 setting.initial :=
      .known .start (Progress.update_holds (by simpa using nonempty))
    obtain ⟨held, returned⟩ := frames_shaped overlapVerifier overlap
    exact ⟨frames, setting, rfl, prepared, held setting prepared 0 _ first, found,
      returned frames accepted 3 _ found⟩

end Verifier
end Bytecode.Verify
