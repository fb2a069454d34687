import Bytecode.Proofs.MarkedFrames
import Bytecode.Proofs.Unconstructed
import Mathlib.Data.Fintype.EquivFin
import Mathlib.Logic.Equiv.Basic

/-! Which object an unconstructed value stands for. A site can make many objects, one each time it
runs, but a frame only ever knows of the latest of them: control reached the site a first time with
no object of its own at hand, and a join keeps such a value only where it comes in on every path. -/

namespace Bytecode.Verify
open List

namespace Frame

/-- The frame has no object that was made at the site and not constructed. -/
structure Lacks (frame : Frame) (site : Nat) : Prop where
  locals : ∀ name, .uninitialized site name ∉ frame.locals
  stack : ∀ name, .uninitialized site name ∉ frame.stack

theorem Lacks.above {lower upper : Frame} {site : Nat} (lacks : lower.Lacks site)
    (below : lower.Below upper) : upper.Lacks site := by
  constructor
  · intro name listed
    obtain ⟨value, held, ordered⟩ := forall₂_mem_right below.locals listed
    rcases ordered with unusable | ordered
    · cases unusable
    · rw [ordered.eq_of_uninitialized (.inr rfl)] at held
      exact lacks.locals name held
  · intro name listed
    obtain ⟨value, held, ordered⟩ := forall₂_mem_right below.stack listed
    rw [ordered.eq_of_uninitialized (.inr rfl)] at held
    exact lacks.stack name held

/-- Renaming sites that a frame lacks does not change it. -/
theorem relocate_congr {frame : Frame} {rename other : Nat → Nat}
    (agree : ∀ site, rename site = other site ∨ frame.Lacks site) :
    frame.relocate rename = frame.relocate other := by
  have same {values : List Value} (absent : ∀ site, frame.Lacks site → ∀ name, .uninitialized site name ∉ values) :
      values.map (Value.relocate rename) = values.map (Value.relocate other) := by
    apply List.map_congr_left
    intro value listed
    cases value with
    | uninitialized site name =>
      rcases agree site with equal | lacks
      · simp only [Value.relocate, equal]
      · exact absurd listed (absent site lacks name)
    | _ => rfl
  exact congrArg₂ Frame.mk (same fun _ lacks => lacks.locals) (same fun _ lacks => lacks.stack)

theorem relocate_id (frame : Frame) : frame.relocate id = frame := by
  have same : Value.relocate id = id := by
    funext value
    cases value <;> rfl
  simp [relocate, same]

/-- A frame that a renaming keeps lacks whatever site the renaming moves. -/
theorem Lacks.of_relocate {frame : Frame} {rename : Nat → Nat} (same : frame.relocate rename = frame)
    {site : Nat} (moved : rename site ≠ site) : frame.Lacks site := by
  have absent {values : List Value} (kept : values.map (Value.relocate rename) = values) (name : String) :
      .uninitialized site name ∉ values := by
    intro listed
    have stays : values.map (Value.relocate rename) = values.map id := by rw [kept, List.map_id]
    have fixed := List.map_inj_left.mp stays _ listed
    simp only [Value.relocate, id, Value.uninitialized.injEq, and_true] at fixed
    exact moved fixed
  exact ⟨absent (congrArg Frame.locals same), absent (congrArg Frame.stack same)⟩

def sites (frame : Frame) : List Nat :=
  (frame.locals ++ frame.stack).filterMap fun value =>
    match value with
    | .uninitialized site _ => some site
    | _ => none

theorem lacks_of_sites {frame : Frame} {site : Nat} (absent : site ∉ frame.sites) : frame.Lacks site := by
  have known {name : String} (listed : .uninitialized site name ∈ frame.locals ++ frame.stack) :
      site ∈ frame.sites := List.mem_filterMap.mpr ⟨_, listed, rfl⟩
  constructor
  · exact fun name listed => absent (known (List.mem_append_left _ listed))
  · exact fun name listed => absent (known (List.mem_append_right _ listed))

end Frame

/-- The instruction makes an object each time it runs. -/
def Makes (instruction : Instruction) : Prop := ∃ name, instruction = .type .new name

theorem transfer_elsewhere (around : Surroundings) (index other : Nat) {instruction : Instruction}
    (makes : ¬ Makes instruction) : transfer around other instruction = transfer around index instruction := by
  cases instruction with
  | type opcode name =>
    cases opcode
    case new => exact absurd ⟨name, rfl⟩ makes
    all_goals rfl
  | _ => rfl

/-- An instruction makes objects of its own site alone. -/
theorem transfer_lacks {around : Surroundings} {index site : Nat} {instruction : Instruction}
    {before after : Frame} (done : (transfer around index instruction).run before = .ok ((), after))
    (unmade : Makes instruction → index ≠ site) (lacks : before.Lacks site) : after.Lacks site := by
  obtain ⟨fresh, apart⟩ := Infinite.exists_notMem_finset (insert index (insert site before.sites.toFinset))
  simp only [Finset.mem_insert, List.mem_toFinset, not_or] at apart
  obtain ⟨elsewhere, different, absent⟩ := apart
  -- Exchanging the site with one that does not occur leaves the frame before as it is, hence also
  -- the frame after.
  let rename := Equiv.swap site fresh
  have kept : before.relocate rename = before.relocate id := by
    apply Frame.relocate_congr
    intro known
    by_cases first : known = site
    · exact .inr (first ▸ lacks)
    · by_cases second : known = fresh
      · exact .inr (second ▸ Frame.lacks_of_sites absent)
      · exact .inl (Equiv.swap_apply_of_ne_of_ne first second)
  have again : (transfer around index instruction).run before = .ok ((), after.relocate rename) := by
    have moved := transfer_relocate rename.injective done
    rw [kept, Frame.relocate_id] at moved
    by_cases makes : Makes instruction
    · have stays : rename index = index :=
        Equiv.swap_apply_of_ne_of_ne (unmade makes) (Ne.symm elsewhere)
      rwa [stays] at moved
    · rwa [transfer_elsewhere around index _ makes] at moved
  apply Frame.Lacks.of_relocate (congrArg Prod.snd (Except.ok.inj (again.symm.trans done)))
  rw [Equiv.swap_apply_left]
  exact different

namespace Flow
variable {flow : Flow}

theorem Path.earlier_visit {moves : List Move} {index : Nat} (path : flow.Path moves index) {move : Move}
    (taken : move ∈ moves) : ∃ earlier, flow.Path earlier move.source ∧ earlier.length < moves.length := by
  induction path with
  | start => cases taken
  | @step earlier last path _ ih =>
    rcases List.mem_cons.mp taken with rfl | before
    · exact ⟨earlier, path, Nat.lt_succ_self _⟩
    · obtain ⟨start, visit, shorter⟩ := ih before
      exact ⟨start, visit, Nat.lt_succ_of_lt shorter⟩

/-- Where control goes it goes a first time. -/
theorem Path.first_visit {moves : List Move} {index : Nat} (path : flow.Path moves index) :
    ∃ first, flow.Path first index ∧ ∀ move ∈ first, move.source ≠ index := by
  induction length : moves.length using Nat.strong_induction_on generalizing moves with
  | _ count ih =>
    by_cases visited : ∃ move ∈ moves, move.source = index
    · obtain ⟨move, taken, rfl⟩ := visited
      obtain ⟨earlier, visit, shorter⟩ := path.earlier_visit taken
      exact ih earlier.length (length ▸ shorter) visit rfl
    · refine ⟨moves, path, ?_⟩
      intro move taken same
      exact visited ⟨move, taken, same⟩

end Flow

/-- How many moves came before the instruction at an index last ran, if it ever did. An instruction
that throws does not run. -/
def lastRun? : List Move → Nat → Option Nat
  | [], _ => none
  | move :: earlier, index =>
    if move.thrown = false ∧ move.source = index then some earlier.length else lastRun? earlier index

section Runs
variable {moves : List Move} {index other time : Nat}

theorem lastRun?_lt (ran : lastRun? moves index = some time) : time < moves.length := by
  induction moves with
  | nil => cases ran
  | cons move earlier ih =>
    rw [lastRun?] at ran
    split at ran
    next =>
      cases ran
      exact Nat.lt_succ_self _
    next => exact Nat.lt_succ_of_lt (ih ran)

/-- At one time one instruction runs. -/
theorem lastRun?_inj (ran : lastRun? moves index = some time) (also : lastRun? moves other = some time) :
    index = other := by
  induction moves with
  | nil => cases ran
  | cons move earlier ih =>
    rw [lastRun?] at ran also
    split at ran
    next here =>
      cases ran
      split at also
      next there => exact here.2.symm.trans there.2
      next => exact absurd (lastRun?_lt also) (Nat.lt_irrefl _)
    next =>
      split at also
      next =>
        cases also
        exact absurd (lastRun?_lt ran) (Nat.lt_irrefl _)
      next => exact ih ran also

theorem lastRun?_isSome {move : Move} (taken : move ∈ moves) (done : move.thrown = false) :
    (lastRun? moves move.source).isSome = true := by
  induction moves with
  | nil => cases taken
  | cons last earlier ih =>
    rw [lastRun?]
    split
    next => rfl
    next apart =>
      rcases List.mem_cons.mp taken with rfl | before
      · exact absurd ⟨done, rfl⟩ apart
      · exact ih before

/-- The time at which an object of a site was made; sites that never ran get times yet to come. -/
def stamp (moves : List Move) (site : Nat) : Nat := (lastRun? moves site).getD (moves.length + site)

theorem stamp_injective (moves : List Move) : Function.Injective (stamp moves) := by
  intro site other same
  unfold stamp at same
  cases ran : lastRun? moves site with
  | none =>
    cases also : lastRun? moves other with
    | none =>
      simp only [ran, also, Option.getD_none] at same
      omega
    | some time =>
      have past := lastRun?_lt also
      simp only [ran, also, Option.getD_none, Option.getD_some] at same
      omega
  | some time =>
    cases also : lastRun? moves other with
    | none =>
      have past := lastRun?_lt ran
      simp only [ran, also, Option.getD_none, Option.getD_some] at same
      omega
    | some last =>
      simp only [ran, also, Option.getD_some] at same
      subst same
      exact lastRun?_inj ran also

end Runs

namespace Setting
variable {setting : Setting} {frames : Array (Option Frame)} {moves : List Move} {index site : Nat}

/-- No frame on a path knows of an object that the path did not make. -/
theorem Consistent.lacks (consistent : setting.Consistent frames)
    (fresh : ∀ site, setting.initial.Lacks site) (path : setting.flow.Path moves index)
    (unmade : ∀ move ∈ moves, move.thrown = false → move.source = site →
      ∀ instruction, setting.flow.instructions[site]? = some instruction → ¬ Makes instruction)
    {frame : Frame} (held : Holds frames index frame) : frame.Lacks site := by
  induction path generalizing frame with
  | start =>
    obtain ⟨first, known, below⟩ := consistent.start
    obtain rfl := known.unique held
    exact (fresh site).above below
  | step path allowed ih =>
    obtain ⟨before, known⟩ := consistent.reaches path
    have lacks := ih (fun move taken => unmade move (List.mem_cons_of_mem _ taken)) known
    cases allowed with
    | @goes instruction source target present next =>
      obtain ⟨after, done⟩ := consistent.accepts source instruction before present known
      obtain ⟨other, also, below⟩ := consistent.covers ⟨source, target, false⟩ before after known
        (.goes present done next)
      obtain rfl := also.unique held
      apply Frame.Lacks.above _ below
      apply transfer_lacks done _ lacks
      intro makes same
      subst same
      exact unmade _ List.mem_cons_self rfl rfl instruction present makes
    | @throws instruction source handler present ordinary listed covers =>
      obtain ⟨other, also, below⟩ := consistent.covers ⟨source, handler.entry, true⟩ before _ known
        (.throws present ordinary listed covers)
      obtain rfl := also.unique held
      have entered : (before.withStack (.reference handler.caught)).Lacks site :=
        ⟨lacks.locals, fun name listed => by cases List.mem_singleton.mp listed⟩
      exact entered.above below

theorem Consistent.lacks_unrun (consistent : setting.Consistent frames)
    (fresh : ∀ site, setting.initial.Lacks site) (path : setting.flow.Path moves index)
    (unrun : lastRun? moves site = none) {frame : Frame} (held : Holds frames index frame) :
    frame.Lacks site := by
  apply consistent.lacks fresh path _ held
  intro move taken done same
  have ran := lastRun?_isSome taken done
  rw [same, unrun] at ran
  cases ran

/-- An instruction finds no object of its own site. -/
theorem Consistent.lacks_own (consistent : setting.Consistent frames)
    (fresh : ∀ site, setting.initial.Lacks site) (path : setting.flow.Path moves index) {frame : Frame}
    (held : Holds frames index frame) : frame.Lacks index := by
  obtain ⟨first, visit, never⟩ := path.first_visit
  apply consistent.lacks fresh visit _ held
  intro move taken _ same
  exact absurd same (never move taken)

/-- A run along moves, the latest of which comes first, in which every object made is known by the
time of its making. Constructed objects are not told apart, and nothing is merged. -/
def individual (setting : Setting) : List Move → Except Violation Frame
  | [] => .ok setting.initial.blur
  | move :: earlier => do
    let own ← setting.individual earlier
    if move.thrown then return own.withStack (.reference objectName)
    match setting.flow.instructions[move.source]? with
    | none => throw .fallsOffEnd
    | some instruction =>
      let ((), after) ← (transfer setting.around earlier.length instruction).run own
      return after.blur

theorem Consistent.stamped (consistent : setting.Consistent frames)
    (fresh : ∀ site, setting.initial.Lacks site) (path : setting.flow.Path moves index) :
    ∃ frame own, Holds frames index frame ∧ setting.individual moves = .ok own ∧
      Tracks own (frame.relocate (stamp moves)) := by
  induction path with
  | start =>
    obtain ⟨frame, held, below⟩ := consistent.start
    have none : stamp [] = id := by
      funext site
      simp [stamp, lastRun?]
    refine ⟨frame, _, held, rfl, ?_⟩
    rw [none, Frame.relocate_id]
    exact (Tracks.blurred setting.initial).above below
  | @step moves move path allowed ih =>
    obtain ⟨before, own, held, carried, tracks⟩ := ih
    -- The move renames no object that the frame before it knows of.
    have kept : before.relocate (stamp moves) = before.relocate (stamp (move :: moves)) := by
      apply Frame.relocate_congr
      intro site
      cases ran : lastRun? moves site with
      | none => exact .inr (consistent.lacks_unrun fresh path ran held)
      | some time =>
        by_cases here : move.source = site
        · subst here
          exact .inr (consistent.lacks_own fresh path held)
        · left
          simp [stamp, lastRun?, ran, here]
    rw [kept] at tracks
    cases allowed with
    | @throws instruction source handler present ordinary listed covers =>
      obtain ⟨frame, known, below⟩ := consistent.covers ⟨source, handler.entry, true⟩ before _ held
        (.throws present ordinary listed covers)
      refine ⟨frame, own.withStack (.reference objectName), known, ?_, ?_⟩
      · simp [individual, carried, bind, Except.bind, pure, Except.pure]
      · have entered : Tracks (own.withStack (.reference objectName))
            ((before.withStack (.reference handler.caught)).relocate
              (stamp (⟨source, handler.entry, true⟩ :: moves))) := ⟨tracks.locals, rfl⟩
        exact entered.above (below.relocate _)
    | @goes instruction source target present next =>
      obtain ⟨after, done⟩ := consistent.accepts source instruction before present held
      obtain ⟨frame, known, below⟩ := consistent.covers ⟨source, target, false⟩ before after held
        (.goes present done next)
      have moved := transfer_relocate (stamp_injective (⟨source, target, false⟩ :: moves)) done
      have now : stamp (⟨source, target, false⟩ :: moves) source = moves.length := by simp [stamp, lastRun?]
      rw [now] at moved
      obtain ⟨last, followed, tracks⟩ := transfer_tracked next moved tracks
      refine ⟨frame, last.blur, known, ?_, tracks.above (below.relocate _)⟩
      simp [individual, carried, present, followed, bind, Except.bind, pure, Except.pure]

end Setting

/-- At a time the instruction at a site ran, which is one that makes objects, and not since then. -/
structure Flow.LastMade (flow : Flow) (moves : List Move) (site time : Nat) : Prop where
  makes : ∃ name, flow.instructions[site]? = some (.type .new name)
  latest : lastRun? moves site = some time

/-- Every unconstructed object of a site that the verifier knows of is the one that the run made
when the site last ran. -/
structure Flow.Identifies (flow : Flow) (moves : List Move) (own frame : Frame) : Prop where
  locals : ∀ (slot : Nat) site name, frame.locals[slot]? = some (.uninitialized site name) →
    ∃ time, flow.LastMade moves site time ∧ own.locals[slot]? = some (.uninitialized time name)
  stack : ∀ (depth : Nat) site name, frame.stack[depth]? = some (.uninitialized site name) →
    ∃ time, flow.LastMade moves site time ∧ own.stack[depth]? = some (.uninitialized time name)

namespace Setting
variable {setting : Setting} {frames : Array (Option Frame)} {moves : List Move} {index site : Nat}

theorem Consistent.lastMade (consistent : setting.Consistent frames)
    (fresh : ∀ site, setting.initial.Lacks site) (path : setting.flow.Path moves index) {frame : Frame}
    (held : Holds frames index frame) :
    frame.Lacks site ∨ setting.flow.LastMade moves site (stamp moves site) := by
  cases ran : lastRun? moves site with
  | none => exact .inl (consistent.lacks_unrun fresh path ran held)
  | some time =>
    by_cases makes : ∃ name, setting.flow.instructions[site]? = some (.type .new name)
    · exact .inr ⟨makes, by simp [stamp, ran]⟩
    · left
      apply consistent.lacks fresh path _ held
      intro move _ _ _ instruction present object
      obtain ⟨name, rfl⟩ := object
      exact makes ⟨name, present⟩

theorem Consistent.identifies (consistent : setting.Consistent frames)
    (fresh : ∀ site, setting.initial.Lacks site) (path : setting.flow.Path moves index) {frame : Frame}
    (held : Holds frames index frame) :
    ∃ own, setting.individual moves = .ok own ∧ setting.flow.Identifies moves own frame := by
  obtain ⟨other, own, known, ran, tracks⟩ := consistent.stamped fresh path
  obtain rfl := known.unique held
  refine ⟨own, ran, ?_⟩
  have entry {values shown : List Value}
      (shows : Forall₂ Value.Shows shown (values.map (Value.relocate (stamp moves))))
      (absent : ∀ site, other.Lacks site → ∀ name, .uninitialized site name ∉ values)
      (place site : Nat) (name : String) (stands : values[place]? = some (.uninitialized site name)) :
      ∃ time, setting.flow.LastMade moves site time ∧ shown[place]? = some (.uninitialized time name) := by
    have known : other.Lacks site ∨ _ := consistent.lastMade fresh path held
    rcases known with lacks | made
    · exact absurd (List.mem_of_getElem? stands) (absent site lacks name)
    · have renamed : (values.map (Value.relocate (stamp moves)))[place]? =
          some (.uninitialized (stamp moves site) name) := by
        rw [List.getElem?_map, stands]
        rfl
      exact ⟨_, made, shows_held shows renamed nofun⟩
  have stack : Forall₂ Value.Shows own.stack (other.stack.map (Value.relocate (stamp moves))) := by
    rw [tracks.stack]
    exact List.forall₂_map_left_iff.mpr (List.forall₂_same.mpr fun _ _ => .inr rfl)
  exact ⟨entry tracks.locals fun _ lacks => lacks.locals, entry stack fun _ lacks => lacks.stack⟩

end Setting

namespace Verifier
variable {verifier : Verifier} {method : Method} {frames : Array (Option Frame)}

/-- An instruction finds no unconstructed object of its own site, and wherever one is known that any
site made, it is the latest that the site made on the way. -/
theorem sites_identify (accepted : verifier.analyze method = .ok frames) {index : Nat} {frame : Frame}
    (held : Holds frames index frame) : frame.Lacks index ∧
      ∃ setting, verifier.setting method = .ok setting ∧ (∃ moves, setting.flow.Path moves index) ∧
        ∀ moves, setting.flow.Path moves index →
          ∃ own, setting.individual moves = .ok own ∧ setting.flow.Identifies moves own frame := by
  have code : method.access.hasNoCode = false := by
    cases codeless : method.access.hasNoCode with
    | false => rfl
    | true =>
      rw [analyze_of_hasNoCode _ codeless] at accepted
      cases accepted
      simp [Holds] at held
  obtain ⟨setting, prepared, consistent, _, reached⟩ := analyze_least code accepted
  have fresh (site : Nat) : setting.initial.Lacks site :=
    .of_relocate (setting_fixed prepared (· + 1)) (Nat.succ_ne_self site)
  obtain ⟨moves, path⟩ := (reached index).mp ⟨frame, held⟩
  refine ⟨consistent.lacks_own fresh path held, setting, prepared, ⟨moves, path⟩, ?_⟩
  intro moves path
  exact consistent.identifies fresh path held

/-- Makes one object after another. -/
def workshop : Method := factoryOf #[.label ⟨0⟩, .type .new "A", .simple .dup,
  .method .invokeSpecial "A" Step.constructorName "()V" false, .simple .pop, .jump .goto ⟨0⟩]

def workshopFrames : Array (Option Frame) :=
  #[some ⟨[], []⟩, some ⟨[], []⟩, some ⟨[], [.uninitialized 1 "A"]⟩,
    some ⟨[], [.uninitialized 1 "A", .uninitialized 1 "A"]⟩, some ⟨[], [.reference "A"]⟩, some ⟨[], []⟩]

theorem sites_identify_workshop : Frame.Lacks ⟨[], [.uninitialized 1 "A", .uninitialized 1 "A"]⟩ 3 ∧
    ∃ setting, factoryVerifier.setting workshop = .ok setting ∧ (∃ moves, setting.flow.Path moves 3) ∧
      ∀ moves, setting.flow.Path moves 3 → ∃ own, setting.individual moves = .ok own ∧
        setting.flow.Identifies moves own ⟨[], [.uninitialized 1 "A", .uninitialized 1 "A"]⟩ := by
  have accepted : factoryVerifier.analyze workshop = .ok workshopFrames := by decide +kernel
  exact sites_identify accepted rfl

end Verifier
end Bytecode.Verify
