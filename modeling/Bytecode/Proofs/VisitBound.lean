import Bytecode.Proofs.Acceptance
import Bytecode.Proofs.Rejections
import Mathlib.Algebra.Order.BigOperators.Group.Finset
import Mathlib.Algebra.Order.BigOperators.Group.List

/-! How many visits an analysis takes at most. The rank of the known frames counts how far they have
lost precision; an arrival that makes an instruction due raises it. The limit on visits plays no
part beyond that: enough visits lead to one result, whatever their number. -/

namespace Bytecode.Verify
open List

namespace Value

/-- How many values can stand strictly below a stack entry. -/
def rank : Value → Nat
  | null => 0
  | reference name => if name = objectName then 2 else 1
  | _ => 2

/-- In a local the unusable value stands above all others. -/
def rankLocal (value : Value) : Nat := if value = empty then 3 else value.rank

theorem rank_le (value : Value) : value.rank ≤ 2 := by
  cases value with
  | reference name =>
    simp only [rank]
    split <;> omega
  | _ => simp [rank]

theorem rankLocal_le (value : Value) : value.rankLocal ≤ 3 := by
  have limit := value.rank_le
  unfold rankLocal
  split <;> omega

theorem Below.rank_lt {lower upper : Value} (below : lower.Below upper) (apart : lower ≠ upper) :
    lower.rank < upper.rank := by
  rcases below_iff.mp below with same | ⟨rfl, name, rfl⟩ | ⟨⟨name, rfl⟩, rfl⟩
  · exact absurd same apart
  · simp only [rank]
    split <;> omega
  · have other : name ≠ objectName := fun same => apart (congrArg reference same)
    simp [rank, other]

theorem BelowLocal.rankLocal_lt {lower upper : Value} (below : lower.BelowLocal upper)
    (apart : lower ≠ upper) : lower.rankLocal < upper.rankLocal := by
  rcases below with rfl | below
  · have limit := lower.rank_le
    simp only [rankLocal, if_neg apart, if_true]
    omega
  · have usable : lower ≠ empty := fun same => apart (same.trans (Below.of_empty (same ▸ below)).symm)
    have higher : upper ≠ empty := by
      intro same
      rcases below_iff.mp below with equal | ⟨_, name, object⟩ | ⟨_, object⟩
      · exact apart equal
      · cases object.symm.trans same
      · cases object.symm.trans same
    simpa only [rankLocal, if_neg usable, if_neg higher] using below.rank_lt apart

end Value

/-- Lists in order are equal or differ in their sums. -/
private theorem sum_lt {relation : Value → Value → Prop} {rank : Value → Nat}
    (rises : ∀ value other, relation value other → value ≠ other → rank value < rank other)
    {lower upper : List Value} (below : Forall₂ relation lower upper) :
    lower = upper ∨ (lower.map rank).sum < (upper.map rank).sum := by
  induction below with
  | nil => exact .inl rfl
  | @cons value other _ _ head _ ih =>
    simp only [List.map_cons, List.sum_cons, List.cons.injEq]
    by_cases same : value = other
    · subst same
      rcases ih with equal | less
      · exact .inl ⟨rfl, equal⟩
      · right
        omega
    · right
      have first := rises value other head same
      rcases ih with equal | less
      · rw [equal]
        omega
      · omega

namespace Frame

/-- A known frame outranks an unknown one, whatever it holds. -/
def rank (frame : Frame) : Nat :=
  1 + (frame.locals.map Value.rankLocal).sum + (frame.stack.map Value.rank).sum

theorem Below.rank_lt {lower upper : Frame} (below : lower.Below upper) (apart : lower ≠ upper) :
    lower.rank < upper.rank := by
  have locals := sum_lt (fun _ _ => Value.BelowLocal.rankLocal_lt) below.locals
  have stack := sum_lt (fun _ _ => Value.Below.rank_lt) below.stack
  have parts : ¬ (lower.locals = upper.locals ∧ lower.stack = upper.stack) := by
    intro same
    exact apart (congrArg₂ Frame.mk same.1 same.2)
  unfold rank
  rcases locals with same | locals
  · rcases stack with equal | stack
    · exact absurd ⟨same, equal⟩ parts
    · rw [same]
      omega
  · rcases stack with equal | stack
    · rw [equal]
      omega
    · omega

end Frame

theorem length_le_stackHeight (stack : List Value) : stack.length ≤ stackHeight stack := by
  induction stack with
  | nil => exact Nat.le_refl 0
  | cons value rest ih =>
    have wide : 1 ≤ value.size := by cases value <;> simp [Value.size]
    simp only [List.length_cons, stackHeight]
    omega

private theorem sum_le {score : Value → Nat} {most : Nat} (bounded : ∀ value, score value ≤ most)
    (values : List Value) : (values.map score).sum ≤ values.length * most := by
  have each : ∀ part ∈ values.map score, part ≤ most := by
    intro part listed
    obtain ⟨value, _, rfl⟩ := List.mem_map.mp listed
    exact bounded value
  have total := List.sum_le_card_nsmul _ _ each
  rwa [Nat.nsmul_eq_mul, List.length_map] at total

theorem Frame.rank_le (frame : Frame) :
    frame.rank ≤ 1 + 3 * frame.locals.length + 2 * stackHeight frame.stack := by
  have locals := sum_le Value.rankLocal_le frame.locals
  have stack := sum_le Value.rank_le frame.stack
  have tall := length_le_stackHeight frame.stack
  unfold Frame.rank
  omega

/-- The rank of the frame at an index, if one is known there. -/
def rankAt (frames : Array (Option Frame)) (index : Nat) : Nat := frames[index]?.join.elim 0 Frame.rank

theorem rankAt_of_holds {frames : Array (Option Frame)} {index : Nat} {frame : Frame}
    (held : Holds frames index frame) : rankAt frames index = frame.rank := by
  rw [rankAt, holds_iff.mpr held]
  rfl

theorem rankAt_cases (frames : Array (Option Frame)) (index : Nat) :
    rankAt frames index = 0 ∨ ∃ frame, Holds frames index frame ∧ rankAt frames index = frame.rank := by
  unfold rankAt
  cases known : frames[index]?.join with
  | none => exact .inl rfl
  | some frame => exact .inr ⟨frame, holds_iff.mp known, rfl⟩

/-- The rank of all known frames together. -/
def frameRank (frames : Array (Option Frame)) : Nat := ∑ index ∈ Finset.range frames.size, rankAt frames index

theorem frameRank_le {frames : Array (Option Frame)} {most : Nat}
    (bounded : ∀ index frame, Holds frames index frame → frame.rank ≤ most) :
    frameRank frames ≤ frames.size * most := by
  have each : ∀ index ∈ Finset.range frames.size, rankAt frames index ≤ most := by
    intro index _
    rcases rankAt_cases frames index with unknown | ⟨frame, held, same⟩
    · omega
    · exact same ▸ bounded index frame held
  have total := Finset.sum_le_card_nsmul _ _ most each
  rwa [Nat.nsmul_eq_mul, Finset.card_range] at total

namespace Progress
variable {progress next : Progress} {flow : Flow} {source target : Nat} {frame incoming : Frame}

/-- A frame put in the place of a lower one, or of none, raises the rank by as much as the queue grows. -/
theorem update_rank (inside : target < progress.frames.size)
    (rises : ∀ held, Holds progress.frames target held → held.rank < frame.rank) :
    (progress.update target frame).queue.length + frameRank progress.frames ≤
      progress.queue.length + frameRank (progress.update target frame).frames := by
  have size : (progress.update target frame).frames.size = progress.frames.size := by simp [update]
  have others (index : Nat) (apart : index ≠ target) :
      rankAt (progress.update target frame).frames index = rankAt progress.frames index := by
    simp [rankAt, update, Array.getElem?_setIfInBounds_ne (Ne.symm apart)]
  have risen : rankAt progress.frames target < rankAt (progress.update target frame).frames target := by
    rw [rankAt_of_holds (update_holds inside)]
    rcases rankAt_cases progress.frames target with unknown | ⟨held, known, same⟩
    · simp only [unknown, Frame.rank]
      omega
    · exact same ▸ rises held known
  have higher : frameRank progress.frames < frameRank (progress.update target frame).frames := by
    unfold frameRank
    rw [size]
    refine Finset.sum_lt_sum ?_ ⟨target, Finset.mem_range.mpr inside, risen⟩
    intro index _
    by_cases same : index = target
    · exact same ▸ risen.le
    · exact (others index same).ge
  have longer : (progress.update target frame).queue.length ≤ progress.queue.length + 1 := by
    simp only [update]
    split <;> simp
  omega

/-- What makes an instruction due raises the rank of the frames. -/
theorem arrive_rank (arrived : progress.arrive flow source target incoming = .ok next)
    (inside : target < progress.frames.size)
    (width : ∀ held, Holds progress.frames target held → held.locals.length = incoming.locals.length) :
    next.queue.length + frameRank progress.frames ≤ progress.queue.length + frameRank next.frames := by
  rcases arrive_ok arrived with ⟨unknown, rfl⟩ | ⟨held, merged, known, joined, outcome⟩
  · apply update_rank inside
    intro held known
    rw [holds_iff.mpr known] at unknown
    cases unknown
  · rcases outcome with ⟨_, rfl⟩ | ⟨fresh, rfl⟩
    · exact Nat.le_refl _
    · obtain ⟨lower, upper, _⟩ := Frame.merge_ok (width held known) joined
      apply update_rank inside
      intro other also
      obtain rfl := known.unique also
      apply lower.rank_lt
      intro same
      rw [← same] at upper
      rw [Frame.absorbs_of_below upper] at fresh
      cases fresh

end Progress

namespace Action

theorem stackHeight_replace {receiver object : Value} {around : Surroundings}
    (made : around.constructed? receiver = some object) (frame : Frame) :
    stackHeight (frame.replace receiver object).stack = stackHeight frame.stack := by
  have same : object.size = receiver.size := by
    cases receiver with
    | uninitializedThis | uninitialized =>
      cases made
      rfl
    | _ => cases made
  simp only [Frame.replace]
  induction frame.stack with
  | nil => rfl
  | cons value rest ih =>
    simp only [List.map_cons, stackHeight, ih]
    split
    next here => rw [same, here]
    next => rfl

/-- An action that pushes keeps within the limit of the stack, any other makes the stack no taller. -/
theorem Performs.height {around : Surroundings} {action : Action} {before after : Frame}
    (performs : Performs around action before after) :
    stackHeight after.stack ≤ max (stackHeight before.stack) around.maxStack := by
  have pushed {result : Option Value} {rest : List Value} (fits : around.Fits result rest) :
      stackHeight (result.toList ++ rest) ≤ max (stackHeight rest) around.maxStack := by
    rcases fits with rfl | fits
    · exact Nat.le_max_left _ _
    · exact Nat.le_trans fits (Nat.le_max_right _ _)
  cases performs with
  | effect _ fits =>
    have tall := pushed fits
    simp only [stackHeight_append] at tall ⊢
    omega
  | shuffle known _ fits =>
    rcases fits with none | fits
    · simp only [StackForm.arrange, none, List.filterMap_nil, List.nil_append, stackHeight_append]
      omega
    · exact Nat.le_trans fits (Nat.le_max_right _ _)
  | element _ _ fits =>
    have tall := pushed fits
    simp only [stackHeight_append, stackHeight] at tall ⊢
    simp only [Option.toList_some, stackHeight] at tall
    omega
  | load _ _ _ fits => exact pushed fits
  | consult => exact Nat.le_max_left _ _
  | store =>
    simp only [stackHeight]
    omega
  | leave =>
    simp only [stackHeight_append]
    omega
  | receive _ _ _ fits =>
    have tall := pushed fits
    simp only [stackHeight_append, stackHeight] at tall ⊢
    omega
  | construct _ made replaced fits =>
    have tall := pushed fits
    rw [replaced, stackHeight_replace made] at tall
    rw [replaced]
    simp only [stackHeight_append, stackHeight] at tall ⊢
    omega

end Action

theorem placed_length {count slot : Nat} {values locals : List Value}
    (placed : placeArguments count slot values = .ok locals) : locals.length = count - slot := by
  induction values generalizing slot locals with
  | nil =>
    cases placed
    simp
  | cons value rest ih =>
    rw [placeArguments] at placed
    split at placed
    next inside =>
      obtain ⟨after, laid, rfl⟩ := map_ok.mp placed
      have later := ih laid
      have wide : 1 ≤ value.size := by cases value <;> simp [Value.size]
      simp only [List.length_cons, List.length_append, List.length_replicate, later]
      omega
    next => cases placed

namespace Setting
variable {setting : Setting} {progress next : Progress} {rejection : Rejection}

/-- The limits of the frames that a visit finds and passes on. -/
structure Bounded (setting : Setting) (frame : Frame) : Prop where
  width : frame.locals.length = setting.initial.locals.length
  height : stackHeight frame.stack ≤ max 1 setting.around.maxStack

/-- The rank of a frame within the limits is at most this. -/
def mostRank (setting : Setting) : Nat :=
  1 + 3 * setting.initial.locals.length + 2 * max 1 setting.around.maxStack

theorem Bounded.rank_le {frame : Frame} (bounded : setting.Bounded frame) : frame.rank ≤ setting.mostRank := by
  have most := frame.rank_le
  have height := bounded.height
  rw [bounded.width] at most
  unfold mostRank
  omega

theorem bounded_carries (empty : setting.initial.stack = []) : setting.Carries fun _ => setting.Bounded where
  initial := ⟨rfl, by simp [empty, stackHeight]⟩
  width _ _ bounded := bounded.width
  moves := by
    intro move before incoming bounded passes
    refine ⟨passes.width.trans bounded.width, ?_⟩
    cases passes with
    | goes _ done =>
      obtain ⟨action, _, performs⟩ := (Action.transfer_follows _ _ _ _).mp done
      have taller := performs.height
      have height := bounded.height
      omega
    | throws => exact Nat.le_max_left _ _
  merges := by
    intro index held incoming merged bounded also joined
    obtain ⟨lower, _⟩ := Frame.merge_ok (bounded.width.trans also.width.symm) joined
    refine ⟨(Frame.merge_locals_length joined).trans bounded.width, ?_⟩
    rw [← stackHeight_below lower.stack]
    exact bounded.height

/-- What holds of the progress while every known frame is within the limits. -/
structure Within (setting : Setting) (progress : Progress) : Prop where
  size : progress.frames.size = setting.flow.size
  known : ∀ index frame, Holds progress.frames index frame → setting.Bounded frame

theorem Within.rank_le (within : setting.Within progress) :
    frameRank progress.frames ≤ setting.flow.size * setting.mostRank :=
  within.size ▸ frameRank_le fun index frame held => (within.known index frame held).rank_le

/-- A visit makes at most as many instructions due as it raises the rank. -/
theorem Within.visit (empty : setting.initial.stack = [])
    (entries : ∀ handler ∈ setting.flow.handlers, handler.entry < setting.flow.size)
    (within : setting.Within progress) {index : Nat}
    (visited : setting.flow.visit setting.around progress index = .ok next) : setting.Within next ∧
      next.queue.length + frameRank progress.frames ≤ progress.queue.length + frameRank next.frames := by
  have carries := bounded_carries empty
  unfold Flow.visit at visited
  split at visited
  next instruction before present held =>
    obtain ⟨passed, found, arrived⟩ := except_bind_ok.mp visited
    have good := carries.edges entries present (within.known index before (holds_iff.mp held)) found
    apply foldlM_holds (fun later => setting.Within later ∧
      later.queue.length + frameRank progress.frames ≤ progress.queue.length + frameRank later.frames)
      ⟨within, Nat.le_refl _⟩ ?_ arrived
    intro early edge late listed holds arrived
    obtain ⟨target, incoming⟩ := edge
    obtain ⟨within, ranked⟩ := holds
    obtain ⟨inside, fresh⟩ := good target incoming listed
    have width : ∀ held, Holds early.frames target held → held.locals.length = incoming.locals.length :=
      fun held kept => (within.known target held kept).width.trans fresh.width.symm
    have there : target < early.frames.size := within.size ▸ inside
    obtain ⟨grows, _⟩ := Progress.arrive_grows arrived there width
    have rises := Progress.arrive_rank arrived there width
    exact ⟨⟨grows.size.trans within.size, carries.arrive arrived within.known fresh⟩, by omega⟩
  next =>
    cases visited
    exact ⟨within, Nat.le_refl _⟩

end Setting

/-- A rule that the code breaks; the limit on visits is one of the analysis. -/
def Violation.OfCode (violation : Violation) : Prop := ∀ limit, violation ≠ .visitLimit limit

abbrev Rejection.OfCode (rejection : Rejection) : Prop := rejection.violation.OfCode

theorem Violation.OfVisit.ofCode {instruction : Instruction} {violation : Violation}
    (refused : violation.OfVisit instruction) : violation.OfCode := by
  intro limit same
  subst same
  cases refused with
  | breaks broken =>
    cases broken with
    | inl frame => cases frame
    | inr record => cases record
  | clash merged => cases merged

open Rejection (OfCode)

theorem Rejection.OfSetting.ofCode {method : Method} {rejection : Rejection}
    (early : rejection.OfSetting method) : rejection.OfCode := by
  cases early <;> exact nofun

namespace Setting
variable {setting : Setting} {progress : Progress}

/-- Visits lead to one result, whatever their limit, if it leaves room for all that the frames
can rise. -/
theorem Within.settle (empty : setting.initial.stack = [])
    (entries : ∀ handler ∈ setting.flow.handlers, handler.entry < setting.flow.size)
    (within : setting.Within progress) (due : Nat)
    (room : progress.queue.length + setting.flow.size * setting.mostRank ≤
      due + frameRank progress.frames) :
    ∃ result, Raises OfCode result ∧ ∀ limit visits, due ≤ visits →
      setting.flow.settle setting.around limit visits progress = result := by
  induction due generalizing progress with
  | zero =>
    have full := within.rank_le
    have idle : progress.queue = [] := List.length_eq_zero_iff.mp (by omega)
    refine ⟨.ok progress, .ok progress, ?_⟩
    intro limit visits _
    unfold Flow.settle
    rw [idle]
  | succ due ih =>
    cases queue : progress.queue with
    | nil =>
      refine ⟨.ok progress, .ok progress, ?_⟩
      intro limit visits _
      unfold Flow.settle
      rw [queue]
    | cons index rest =>
      have step (limit visits : Nat) (enough : due + 1 ≤ visits) :
          setting.flow.settle setting.around limit visits progress =
            setting.flow.visit setting.around { progress with queue := rest } index >>=
              setting.flow.settle setting.around limit (visits - 1) := by
        obtain ⟨visits, rfl⟩ : ∃ more, visits = more + 1 := ⟨visits - 1, by omega⟩
        conv => lhs; unfold Flow.settle
        rw [queue]
        rfl
      cases visited : setting.flow.visit setting.around { progress with queue := rest } index with
      | error rejection =>
        obtain ⟨instruction, _, _, refused⟩ := setting.flow.visit_raises setting.around _ _ rejection visited
        refine ⟨.error rejection, .error refused.ofCode, ?_⟩
        intro limit visits enough
        rw [step limit visits enough, visited]
        rfl
      | ok next =>
        have waiting : setting.Within { progress with queue := rest } := ⟨within.size, within.known⟩
        obtain ⟨later, ranked⟩ := waiting.visit empty entries visited
        rw [queue, List.length_cons] at room
        simp only at ranked
        obtain ⟨result, rules, settled⟩ := ih later (by omega)
        refine ⟨result, rules, ?_⟩
        intro limit visits enough
        rw [step limit visits enough, visited]
        exact settled limit (visits - 1) (by omega)

theorem settle_start (setting : Setting) (empty : setting.initial.stack = [])
    (entries : ∀ handler ∈ setting.flow.handlers, handler.entry < setting.flow.size)
    (nonempty : 0 < setting.flow.size) :
    ∃ result, Raises OfCode result ∧ ∀ limit visits, setting.flow.size * setting.mostRank ≤ visits →
      setting.flow.settle setting.around limit visits
        ((⟨Array.replicate setting.flow.size none, []⟩ : Progress).update 0 setting.initial) = result := by
  have valid := valid_start (bounded_carries empty) nonempty
  generalize none : (⟨Array.replicate setting.flow.size none, []⟩ : Progress) = first at valid ⊢
  have unknown : ∀ held, ¬ Holds first.frames 0 held := by
    intro held known
    simp [← none, Holds, Array.getElem?_replicate] at known
  have raised : (first.update 0 setting.initial).queue.length + frameRank first.frames ≤
      first.queue.length + frameRank (first.update 0 setting.initial).frames :=
    Progress.update_rank (by simpa [← none] using nonempty) fun held known => absurd known (unknown held)
  have idle : first.queue.length = 0 := by simp [← none]
  have start : setting.Within (first.update 0 setting.initial) := ⟨valid.size, valid.known⟩
  apply start.settle empty entries
  omega

end Setting

namespace Verifier
variable {verifier : Verifier} {method : Method}

theorem initialFrame_ok {type : MethodType} {initial : Frame}
    (built : verifier.initialFrame method type = .ok initial) :
    initial.locals.length = method.maxLocals.toNat ∧ initial.stack = [] := by
  obtain ⟨locals, placed, same⟩ := except_bind_ok.mp built
  cases same
  exact ⟨placed_length placed, rfl⟩

/-- The frames have little room to rise, so few visits are enough, and more do not change the result. -/
theorem analyze_enough_visits (visits : Nat)
    (enough : method.instructions.size *
      (1 + 3 * method.maxLocals.toNat + 2 * max 1 verifier.maxStack.toNat) ≤ verifier.maxVisits)
    (also : method.instructions.size *
      (1 + 3 * method.maxLocals.toNat + 2 * max 1 verifier.maxStack.toNat) ≤ visits) :
    { verifier with maxVisits := visits }.analyze method = verifier.analyze method ∧
      ∀ rejection, verifier.analyze method = .error rejection →
        ∀ limit, rejection.violation ≠ .visitLimit limit := by
  cases code : method.access.hasNoCode with
  | true =>
    rw [analyze_of_hasNoCode _ code, analyze_of_hasNoCode _ code]
    exact ⟨rfl, nofun⟩
  | false =>
    have same : { verifier with maxVisits := visits }.setting method = verifier.setting method := rfl
    rw [analyze_eq _ method code, analyze_eq _ method code, same]
    cases prepared : verifier.setting method with
    | error rejection =>
      refine ⟨rfl, fun other refused => ?_⟩
      cases refused
      exact (setting_raises verifier method _ prepared).ofCode
    | ok setting =>
      obtain ⟨type, _, built, around, placed, nonempty⟩ := setting_ok prepared
      obtain ⟨width, empty⟩ := initialFrame_ok placed
      have most : setting.flow.size * setting.mostRank = method.instructions.size *
          (1 + 3 * method.maxLocals.toNat + 2 * max 1 verifier.maxStack.toNat) := by
        rw [Setting.mostRank, width, ← around, Flow.size, (Flow.ofMethod_ok built).1]
        rfl
      rw [← most] at enough also
      obtain ⟨result, rules, settled⟩ := setting.settle_start empty (Flow.ofMethod_ok built).2 nonempty
      simp only [bind, Except.bind] at settled ⊢
      rw [settled visits visits also, settled _ _ enough]
      refine ⟨rfl, fun rejection refused => ?_⟩
      cases result with
      | error other =>
        cases refused
        exact rules _ rfl
      | ok progress => cases refused

/-- Tests its argument until it is not zero, and then pops what is not there. -/
def drain : Method where
  access := ⟨8⟩
  name := "drain"
  descriptor := "(I)V"
  signature := none
  exceptions := []
  instructions := #[.label ⟨0⟩, .variable .iload 0, .jump .ifeq ⟨0⟩, .simple .pop, .simple .returnVoid]
  ranges := []
  variableTable := none
  maxStack := 1
  maxLocals := 1

theorem analyze_enough_visits_drain : { spinVerifier with maxVisits := 30 }.analyze drain = .error ⟨3, .stackUnderflow⟩ ∧
    ∀ limit, Violation.stackUnderflow ≠ .visitLimit limit := by
  have refused : spinVerifier.analyze drain = .error ⟨3, .stackUnderflow⟩ := by decide +kernel
  have enough : drain.instructions.size *
      (1 + 3 * drain.maxLocals.toNat + 2 * max 1 spinVerifier.maxStack.toNat) ≤ 30 := by decide
  obtain ⟨same, rules⟩ := analyze_enough_visits 30 (Nat.le_trans enough (by decide)) enough
  exact ⟨same.trans refused, rules _ refused⟩

end Verifier

end Bytecode.Verify
