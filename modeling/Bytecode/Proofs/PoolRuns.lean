import Bytecode.Proofs.PoolHistory

/-! What the runs of a pool keep true of its history, step by step, and how long its workers go on when they are left
alone. -/

namespace Bytecode.Host
variable {σ : Type} {machine : Machine σ} {switches : Switches} {initial : σ}

namespace History
variable {history : History σ} {services : List Service} {lost : Multiset (Nat × Call)} {event : PoolEvent}

/-- What every run keeps true. -/
structure Sound (machine : Machine σ) (switches : Switches) (initial : σ) (history : History σ)
    (services : List Service) (lost : Multiset (Nat × Call)) : Prop where
  orderly : history.pool.Orderly
  unfinished : history.pool.Unfinished
  stands : history.Stands machine switches initial services
  counted : history.Counted services lost
  loses : history.Loses lost

theorem start_sound (machine : Machine σ) (initial : σ) (switches : Switches) (workers capacity : Nat) :
    (start initial switches workers capacity).Sound machine switches initial [] 0 where
  orderly := Pool.start_orderly ..
  unfinished := Pool.start_unfinished _ _ _ _
  stands := by
    have boots : (Pool.start initial switches workers capacity).boots = 0 := Pool.tally_start rfl _ _ _ _
    have none : (Pool.start initial switches workers capacity).holders = 0 := Pool.tally_start rfl _ _ _ _
    refine ⟨rfl, none.symm ▸ .starting, ?_, fun _ => ⟨rfl, boots⟩, fun _ => Pool.tally_start rfl _ _ _ _, rfl⟩
    exact Nat.le_trans (Nat.le_of_eq boots) (Nat.zero_le _)
  counted := by
    have none : (Pool.start initial switches workers capacity).pending = 0 := Pool.tally_start rfl _ _ _ _
    exact ⟨rfl, none.symm ▸ rfl, rfl⟩
  loses := ⟨fun _ => ⟨rfl, rfl⟩, nofun⟩

theorem Sound.step (returns : machine.Returns) (sound : history.Sound machine switches initial services lost)
    {after : History σ} (stepped : history.step? machine event = some after) :
    ∃ others more, after.Sound machine switches initial others more := by
  obtain ⟨pool, possible, rfl⟩ := Option.map_eq_some_iff.mp stepped
  obtain ⟨orderly, unfinished, stands, counted, loses⟩ := sound
  have move := Pool.step?_moves returns unfinished possible
  have ordered := orderly.step move
  have running := move.unfinished unfinished
  cases move with
  | launch unlaunched =>
    exact ⟨services, lost, ordered, running, stands.launch unlaunched,
      counted.frame rfl rfl (Pool.tally_adds history.pool rfl) rfl,
      loses.frame rfl fun closing => by cases unlaunched.symm.trans (orderly.launched closing)⟩
  | @refuse call _ refused =>
    rw [orderly.refusal?_eq call] at refused
    exact ⟨services, lost, ordered, running, stands.idle rfl rfl rfl rfl rfl rfl (fun _ => rfl) rfl,
      counted.refuse refused, loses.frame rfl fun _ => rfl⟩
  | @accept call accepted =>
    have taking := Pool.taking_of_accepted accepted
    rw [orderly.refusal?_eq call] at accepted
    have ready : history.pool.readiness = .ready := Asked.ready_of_accepted accepted
    exact ⟨services, lost, ordered, running, stands.idle rfl rfl rfl rfl (Pool.tally_adds history.pool rfl)
      (Pool.tally_adds history.pool rfl) (fun unready => absurd ready unready) rfl, counted.accept accepted,
      loses.frame rfl fun closing => by cases taking.symm.trans closing⟩
  | close launched first =>
    exact ⟨services, lost, ordered, running, stands.idle rfl rfl rfl rfl rfl rfl (fun _ => rfl) rfl,
      counted.frame rfl rfl rfl rfl, loses.close orderly first⟩
  | closeAgain =>
    have passes := Pool.passes_owed history.pool history.pool.owed
    exact ⟨services, lost, ordered, running, stands.pass passes rfl, counted.pass passes rfl,
      loses.pass passes fun _ => rfl⟩
  | @forgoStop owed =>
    have passes := Pool.passes_owed history.pool owed
    exact ⟨services, lost, ordered, running, stands.pass passes rfl, counted.pass passes rfl,
      loses.pass passes fun _ => rfl⟩
  | @sendStop owed =>
    have passes := Pool.passes_sendStop history.pool owed
    exact ⟨services, lost, ordered, running, stands.pass passes rfl, counted.pass passes rfl,
      loses.pass passes fun _ => Pool.forsaken_append_stop history.pool⟩
  | takeStop idle queued =>
    have closing := orderly.closing .stop (queued ▸ List.mem_cons_self) rfl
    have passes := Pool.passes_takeStop idle queued
    refine ⟨services, _, ordered, running, (stands.pass passes rfl).abandon, (counted.pass passes rfl).abandon,
      (loses.pass passes fun _ => ?_).abandon closing⟩
    rw [Pool.forsaken_of_mem (List.mem_of_getElem? idle) rfl]
    exact Pool.forsaken_of_stops fun _ => orderly.stops queued
  | takeJob idle queued =>
    have passes := Pool.passes_takeJob idle queued
    refine ⟨services, lost, ordered, running, stands.pass passes rfl, counted.pass passes rfl,
      loses.pass passes fun _ => ?_⟩
    rw [Pool.forsaken_of_mem (List.mem_of_getElem? idle) rfl]
    exact Pool.forsaken_of_mem (Pool.setWorker_mem idle _) rfl
  | boot free waits =>
    exact ⟨services, lost, ordered, running, stands.boot free waits,
      counted.frame rfl rfl (Pool.tally_keeps waits rfl) rfl,
      loses.frame rfl fun _ => Pool.forsaken_setWorker waits rfl rfl⟩
  | begin free waits =>
    exact ⟨services, lost, ordered, running, stands.begin free waits,
      counted.frame rfl rfl (Pool.tally_keeps waits rfl) rfl,
      loses.frame rfl fun _ => Pool.forsaken_setWorker waits rfl rfl⟩
  | acquireStop waits => exact absurd (List.mem_of_getElem? waits) orderly.atWork
  | booted held came =>
    exact ⟨services, lost, ordered, running, stands.booted held came,
      counted.frame rfl rfl (Pool.tally_keeps held rfl) rfl,
      loses.frame rfl fun _ => Pool.forsaken_setWorker held rfl rfl⟩
  | failed held came =>
    exact ⟨services, lost, ordered, running, stands.failed held came,
      counted.frame rfl rfl (Pool.tally_keeps held rfl) rfl,
      loses.frame rfl fun _ => Pool.forsaken_setWorker held rfl rfl⟩
  | proceed held calls moved due =>
    exact ⟨services, lost, ordered, running, stands.proceed held calls moved due,
      counted.frame rfl rfl (Pool.tally_keeps held rfl) rfl,
      loses.frame rfl fun _ => Pool.forsaken_setWorker held rfl rfl⟩
  | finish held calls moved =>
    exact ⟨_, lost, ordered, running, stands.finish held calls moved, counted.finish _ _ held,
      loses.frame rfl fun _ => Pool.forsaken_setWorker held rfl rfl⟩
  | expire idle queued =>
    have passes := Pool.passes_expire idle
    refine ⟨services, lost, ordered, running, stands.pass passes rfl, counted.pass passes rfl,
      loses.pass passes fun _ => ?_⟩
    rw [Pool.forsaken_of_mem (List.mem_of_getElem? idle) rfl]
    exact Pool.forsaken_of_stops fun _ listed => nomatch queued ▸ listed
  | resume expired taking =>
    have passes := Pool.passes_resume expired
    exact ⟨services, lost, ordered, running, stands.pass passes rfl, counted.pass passes rfl,
      loses.pass passes fun closing => by cases taking.symm.trans closing⟩
  | leave expired closing =>
    have passes := Pool.passes_leave expired
    exact ⟨services, _, ordered, running, (stands.pass passes rfl).abandon, (counted.pass passes rfl).abandon,
      (loses.pass passes fun _ => Pool.forsaken_leave expired).abandon closing⟩

theorem Sound.run (returns : machine.Returns) {events : List PoolEvent} {last : History σ}
    (sound : history.Sound machine switches initial services lost) (ran : history.run? machine events = some last) :
    ∃ others more, last.Sound machine switches initial others more := by
  induction events generalizing history services lost with
  | nil =>
    cases ran
    exact ⟨services, lost, sound⟩
  | cons event rest ih =>
    obtain ⟨middle, stepped, ran⟩ := Option.bind_eq_some_iff.mp ran
    obtain ⟨others, more, sound⟩ := sound.step returns stepped
    exact ih sound ran

section Rest
variable (returns : machine.Returns) {events : List PoolEvent} {last : History σ}
  (sound : history.Sound machine switches initial services lost)
include returns sound

/-- Workers that are left alone make only so many of the steps that cost effort. -/
theorem Sound.countP_le (counts : PoolEvent → Bool) (late : Nat)
    (costs : ∀ {event} {pool next : Pool σ}, pool.Moves machine event next → event.ofWorker = true →
      pool.closing = history.pool.closing →
      (if counts event = true then 1 else 0) + next.effort late ≤ pool.effort late)
    (works : ∀ event ∈ events, event.ofWorker = true) (ran : history.run? machine events = some last) :
    events.countP counts + last.pool.effort late ≤ history.pool.effort late := by
  induction events generalizing history services lost with
  | nil =>
    cases ran
    exact Nat.le_of_eq (Nat.zero_add _)
  | cons event rest ih =>
    obtain ⟨work, works⟩ := List.forall_mem_cons.mp works
    obtain ⟨middle, stepped, ran⟩ := Option.bind_eq_some_iff.mp ran
    obtain ⟨others, more, later⟩ := sound.step returns stepped
    obtain ⟨pool, possible, rfl⟩ := Option.map_eq_some_iff.mp stepped
    have move := Pool.step?_moves returns sound.unfinished possible
    have closing : pool.closing = history.pool.closing := move.closing_eq work
    have cost := costs move work rfl
    have left : rest.countP counts + last.pool.effort late ≤ pool.effort late :=
      ih later (fun moves works same => costs moves works (same.trans closing)) works ran
    rw [List.countP_cons]
    omega

/-- They run out of jobs. -/
theorem Sound.work_le (works : ∀ event ∈ events, event.ofWorker = true)
    (ran : history.run? machine events = some last) :
    events.countP PoolEvent.isWork ≤ history.pool.effort 2 := by
  refine Nat.le_of_add_right_le (sound.countP_le returns PoolEvent.isWork 2 ?_ works ran)
  intro event pool next move work _
  split
  next gets =>
    have less : next.effort 2 < pool.effort 2 :=
      move.effort_lt work Nat.two_pos (by rintro _ rfl; cases gets) (by rintro _ _ rfl; cases gets)
    omega
  next =>
    have most := move.effort_le work
    omega

/-- In a pool that is closing they come to an end. -/
theorem Sound.length_le (closing : history.pool.closing = true) (works : ∀ event ∈ events, event.ofWorker = true)
    (ran : history.run? machine events = some last) : events.length ≤ history.pool.effort 1 := by
  have all : events.countP (fun _ => true) = events.length := congrFun List.countP_true events
  refine all ▸ Nat.le_of_add_right_le (sound.countP_le returns (fun _ => true) 1 ?_ works ran)
  intro event pool next move work same
  have less : next.effort 1 < pool.effort 1 :=
    move.effort_lt work Nat.one_pos (fun _ _ => Nat.one_lt_two) fun taking => by
      cases taking.symm.trans (same.trans closing)
  rw [if_pos rfl]
  omega

end Rest

/-- What workers do when they work can be done event by event. -/
theorem run?_work (machine : Machine σ) (history : History σ) (steps : Nat) :
    ∃ events last, (∀ event ∈ events, event.ofWorker = true) ∧ history.run? machine events = some last ∧
      last.pool = history.pool.work machine steps := by
  induction steps generalizing history with
  | zero => exact ⟨[], history, nofun, rfl, rfl⟩
  | succ steps ih =>
    unfold Pool.work
    split
    next next found =>
      obtain ⟨event, among, stepped⟩ := List.exists_of_findSome?_eq_some found
      have works : event.ofWorker = true := Pool.ofWorker_of_mem among
      obtain ⟨events, last, others, ran, same⟩ := ih (history.next event next)
      refine ⟨event :: events, last, List.forall_mem_cons.mpr ⟨works, others⟩, ?_, same⟩
      rw [run?, step?, stepped]
      exact ran
    next => exact ⟨[], history, nofun, rfl, rfl⟩

end History
end Bytecode.Host
