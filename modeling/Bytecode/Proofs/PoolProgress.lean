import Bytecode.Proofs.PoolSteps
import Mathlib.Algebra.Order.BigOperators.Group.List
import Mathlib.Algebra.Order.Group.Nat

/-! Why the workers of a pool come to rest, and that nothing is left undone when they do. In an open pool a worker
without jobs waits, looks and waits again forever; the steps that are bounded are those that get on with a job. -/

namespace Bytecode.Host
variable {σ : Type} {machine : Machine σ}

namespace PoolEvent

/-- The event is a step of a worker. -/
def ofWorker : PoolEvent → Bool
  | take _ | acquire _ | advance _ | expire _ | look _ => true
  | launch | request _ | close | sendStop => false

/-- The event is a step of a worker with a job. -/
def isWork : PoolEvent → Bool
  | take _ | acquire _ | advance _ => true
  | launch | request _ | close | sendStop | expire _ | look _ => false

/-- The event is a step that a worker makes without waiting in vain before. -/
def isDue : PoolEvent → Bool
  | take _ | acquire _ | advance _ | look _ => true
  | launch | request _ | close | sendStop | expire _ => false

theorem ofWorker_of_isDue {event : PoolEvent} (due : event.isDue = true) : event.ofWorker = true := by
  cases event with
  | take | acquire | advance | look => rfl
  | launch | request | close | sendStop | expire => cases due

end PoolEvent

theorem Worker.effort_le {late : Nat} (few : late ≤ 6) (worker : Worker) : worker.effort late ≤ 6 := by
  cases worker with
  | expired => exact few
  | running _ _ stage => cases stage <;> simp [effort, Stage.left]
  | idle | waiting | booting | gone => simp [effort]

namespace Pool
variable {pool next : Pool σ} {event : PoolEvent} {late : Nat}

theorem effort_setWorker {index : Nat} {worker other : Worker} (there : pool.workers[index]? = some worker)
    (less : other.effort late < worker.effort late) : (pool.setWorker index other).effort late < pool.effort late := by
  obtain ⟨others, before, after⟩ := tally_setWorker (fun _ => 5) (Worker.effort late) there
  rw [effort, effort, before, after]
  exact Nat.add_lt_add_right less others

theorem effort_take {index : Nat} {job : Job} {rest : List Job} {other : Worker}
    (idle : pool.workers[index]? = some .idle) (queued : pool.queue = job :: rest) (most : other.effort late ≤ 6) :
    ({ pool with queue := rest }.setWorker index other).effort late < pool.effort late := by
  obtain ⟨others, before, after⟩ := tally_take (fun _ => 5) (Worker.effort late) idle queued
  have two : Worker.effort late .idle = 2 := rfl
  rw [effort, effort, before, after]
  omega

theorem effort_abandon (pool : Pool σ) : pool.abandon.effort late ≤ pool.effort late :=
  Nat.le_of_add_right_le (Nat.le_of_eq (tally_abandon pool))

/-- A step of a worker is one of the few that are left, if an expired wait counts for less than a new one where waits
run out, and for more where workers wait again. -/
theorem Moves.effort_lt (move : Moves machine pool event next) (works : event.ofWorker = true) (some : 0 < late)
    (expires : ∀ worker, event = .expire worker → late < 2)
    (resumes : pool.closing = false → ∀ worker, event = .look worker → 2 < late) :
    next.effort late < pool.effort late := by
  cases move with
  | launch | refuse | accept | close | closeAgain | sendStop | forgoStop => cases works
  | takeStop idle queued => exact Nat.lt_of_le_of_lt (effort_abandon _) (effort_take idle queued (Nat.zero_le _))
  | takeJob idle queued => exact effort_take idle queued (Nat.le_refl 6)
  | boot _ waits => exact effort_setWorker waits (show 3 < 6 by decide)
  | begin _ waits => exact effort_setWorker waits (Nat.lt_succ_self 5)
  | acquireStop waits => exact Nat.lt_of_le_of_lt (effort_abandon _) (effort_setWorker waits (show 0 < 6 by decide))
  | booted held => exact effort_setWorker held (Nat.lt_succ_self 2)
  | failed held => exact effort_setWorker held (Nat.lt_succ_self 2)
  | @proceed _ _ call _ _ _ _ held calls moved =>
    have fewer := call.advance_left machine calls pool.switches pool.state
    rw [moved] at fewer
    exact effort_setWorker held (Nat.add_lt_add_right fewer 2)
  | @finish _ _ call _ _ _ _ held calls moved =>
    have fewer := call.advance_left machine calls pool.switches pool.state
    rw [moved] at fewer
    exact effort_setWorker held (Nat.add_lt_add_right fewer 2)
  | expire idle => exact effort_setWorker idle (expires _ rfl)
  | resume expired taking => exact effort_setWorker expired (resumes taking _ rfl)
  | leave expired => exact Nat.lt_of_le_of_lt (effort_abandon _) (effort_setWorker expired some)

/-- Waiting in vain costs nothing where an expired wait counts as much as a new one. -/
theorem Moves.effort_le (move : Moves machine pool event next) (works : event.ofWorker = true) :
    next.effort 2 ≤ pool.effort 2 := by
  cases event with
  | launch | request | close | sendStop => cases works
  | take | acquire | advance =>
    exact Nat.le_of_lt (move.effort_lt rfl Nat.two_pos nofun fun _ => nofun)
  | expire =>
    cases move with
    | expire idle => exact Nat.le_of_eq (tally_keeps idle rfl)
  | look =>
    cases move with
    | resume expired => exact Nat.le_of_eq (tally_keeps expired rfl)
    | leave expired => exact Nat.le_trans (effort_abandon _) (Nat.le_of_lt (effort_setWorker expired Nat.two_pos))

/-- Stops come last in the queue, workers leave only a pool that is closing, and the queue goes with the last one. -/
structure Orderly (pool : Pool σ) : Prop where
  staffed : pool.workers ≠ []
  roomy : 0 < pool.capacity
  last : pool.queue.Pairwise fun first second => first = .stop → second = .stop
  closing : ∀ job ∈ pool.queue, job = .stop → pool.closing = true
  owed : 0 < pool.owed → pool.closing = true
  launched : pool.closing = true → pool.launched = true
  atWork : .waiting .stop ∉ pool.workers
  gone : .gone ∈ pool.workers → pool.closing = true
  dead : pool.isDead = true → pool.queue = []

theorem start_orderly (state : σ) (switches : Switches) (workers capacity : Nat) :
    (start state switches workers capacity).Orderly where
  staffed := by simp [start]
  roomy := Nat.lt_of_lt_of_le Nat.one_pos (Nat.le_max_right capacity 1)
  last := .nil
  closing _ listed := nomatch listed
  owed := nofun
  launched := nofun
  atWork listed := by cases List.eq_of_mem_replicate listed
  gone listed := by cases List.eq_of_mem_replicate listed
  dead _ := rfl

theorem taking_of_accepted (accepted : pool.refusal? = none) : pool.closing = false := by
  by_contra closing
  rw [Bool.not_eq_false] at closing
  rw [refusal?, if_pos closing] at accepted
  cases accepted

section Orderly
variable (orderly : pool.Orderly) {index : Nat}
include orderly

theorem Orderly.setWorker {before worker : Worker} (there : pool.workers[index]? = some before)
    (works : worker ≠ .waiting .stop) (stays : worker.isGone = false) : (pool.setWorker index worker).Orderly where
  staffed none := orderly.staffed (by simpa [Pool.setWorker] using none)
  roomy := orderly.roomy
  last := orderly.last
  closing := orderly.closing
  owed := orderly.owed
  launched := orderly.launched
  atWork listed := (mem_setWorker listed).elim orderly.atWork fun same => works same.symm
  gone listed := (mem_setWorker listed).elim orderly.gone fun same => by cases same.symm ▸ stays
  dead died := by
    rw [not_dead_of_mem (setWorker_mem there worker) stays] at died
    cases died

theorem Orderly.depart (index : Nat) (closing : pool.closing = true) : (pool.depart index).Orderly where
  staffed none := orderly.staffed (by simpa [Pool.depart, abandon, Pool.setWorker] using none)
  roomy := orderly.roomy
  last := by
    unfold Pool.depart abandon
    dsimp only
    split
    next => exact .nil
    next => exact orderly.last
  closing _ _ _ := closing
  owed := orderly.owed
  launched := orderly.launched
  atWork listed := (mem_setWorker listed).elim orderly.atWork nofun
  gone _ := closing
  dead died := if_pos died

theorem Orderly.pop {job : Job} {rest : List Job} (queued : pool.queue = job :: rest) :
    { pool with queue := rest }.Orderly where
  staffed := orderly.staffed
  roomy := orderly.roomy
  last := (List.pairwise_cons.mp (queued ▸ orderly.last)).2
  closing other listed := orderly.closing other (queued ▸ List.mem_cons_of_mem _ listed)
  owed := orderly.owed
  launched := orderly.launched
  atWork := orderly.atWork
  gone := orderly.gone
  dead died := by cases queued.symm.trans (orderly.dead died)

theorem Orderly.append (job : Job) (fits : job = .stop ↔ pool.closing = true) (staffed : pool.isDead = false) :
    { pool with queue := pool.queue ++ [job] }.Orderly where
  staffed := orderly.staffed
  roomy := orderly.roomy
  last := by
    refine List.pairwise_append.mpr ⟨orderly.last, List.pairwise_singleton _ _, ?_⟩
    intro first listed second added same
    obtain rfl := List.mem_singleton.mp added
    exact fits.mpr (orderly.closing first listed same)
  closing other listed same := by
    rcases List.mem_append.mp listed with old | added
    · exact orderly.closing other old same
    · obtain rfl := List.mem_singleton.mp added
      exact fits.mp same
  owed := orderly.owed
  launched := orderly.launched
  atWork := orderly.atWork
  gone := orderly.gone
  dead died := by cases staffed.symm.trans died

/-- A pool that takes calls has workers. -/
theorem Orderly.not_dead (taking : pool.closing = false) : pool.isDead = false := by
  obtain ⟨worker, listed⟩ := List.exists_mem_of_ne_nil _ orderly.staffed
  refine not_dead_of_mem listed ?_
  cases worker with
  | gone => cases taking.symm.trans (orderly.gone listed)
  | _ => rfl

/-- Behind a stop there are only stops. -/
theorem Orderly.stops {rest : List Job} (queued : pool.queue = .stop :: rest) {job : Job} (listed : job ∈ rest) :
    job = .stop := by
  have last := orderly.last
  rw [queued] at last
  exact (List.pairwise_cons.mp last).1 job listed rfl

theorem Orderly.step (move : Moves machine pool event next) : next.Orderly := by
  cases move with
  | launch unlaunched =>
    have taking : pool.closing = false := by
      by_contra closing
      rw [Bool.not_eq_false] at closing
      cases unlaunched.symm.trans (orderly.launched closing)
    have grown := orderly.append .bootstrap (by simp [taking]) (orderly.not_dead taking)
    exact { grown with launched := fun _ => rfl }
  | refuse => exact { orderly with }
  | @accept call accepted =>
    have taking := taking_of_accepted accepted
    have grown := orderly.append (.invoke pool.issued call) (by simp [taking]) (orderly.not_dead taking)
    exact { grown with }
  | close launched first =>
    exact { orderly with closing := fun _ _ _ => rfl, owed := fun _ => rfl, launched := fun _ => launched,
                         gone := fun _ => rfl }
  | closeAgain => exact orderly
  | sendStop due staffed =>
    have closing := orderly.owed (by omega)
    have grown := orderly.append .stop (iff_of_true rfl closing) staffed
    exact { grown with owed := fun _ => closing }
  | forgoStop due =>
    have closing := orderly.owed (by omega)
    exact { orderly with owed := fun _ => closing }
  | takeStop idle queued =>
    have closing := orderly.closing .stop (queued ▸ List.mem_cons_self) rfl
    exact (orderly.pop queued).depart _ closing
  | takeJob idle queued work =>
    refine (orderly.pop queued).setWorker idle ?_ rfl
    intro same
    cases same
    exact work rfl
  | boot _ waits | begin _ waits => exact orderly.setWorker waits nofun rfl
  | acquireStop waits => exact absurd (List.mem_of_getElem? waits) orderly.atWork
  | @booted index _ held | @failed index _ _ held | @finish index _ _ _ _ _ _ held =>
    have kept : (pool.setWorker index .idle).Orderly := orderly.setWorker held nofun rfl
    exact { kept with }
  | @proceed index ticket call _ _ stage _ held =>
    have kept : (pool.setWorker index (.running ticket call stage)).Orderly := orderly.setWorker held nofun rfl
    exact { kept with }
  | expire idle => exact orderly.setWorker idle nofun rfl
  | resume expired => exact orderly.setWorker expired nofun rfl
  | leave expired closing => exact orderly.depart _ closing

end Orderly

/-- No worker can do anything but wait for a job in vain. -/
def Quiet (machine : Machine σ) (pool : Pool σ) : Prop :=
  ∀ event, event.isDue = true → pool.step? machine event = none

section Quiet
variable (quiet : pool.Quiet machine)
include quiet

theorem Quiet.not_holds {worker : Worker} (listed : worker ∈ pool.workers) : worker.holds = false := by
  obtain ⟨index, there⟩ := List.mem_iff_getElem?.mp listed
  have stuck : pool.advance? machine index = none := quiet (.advance index) rfl
  unfold advance? at stuck
  rw [there] at stuck
  cases worker with
  | booting | running => cases stuck
  | idle | expired | waiting | gone => rfl

theorem Quiet.free : pool.isFree = true := by
  simp only [isFree, Bool.not_eq_true', List.any_eq_false, Bool.not_eq_true]
  exact fun _ => quiet.not_holds

theorem Quiet.resting {worker : Worker} (listed : worker ∈ pool.workers) :
    worker = .idle ∧ pool.queue = [] ∨ worker = .gone := by
  obtain ⟨index, there⟩ := List.mem_iff_getElem?.mp listed
  have waits : pool.acquire? index = none := quiet (.acquire index) rfl
  have takes : pool.take? index = none := quiet (.take index) rfl
  have looks : pool.look? index = none := quiet (.look index) rfl
  unfold acquire? at waits
  unfold take? at takes
  unfold look? at looks
  rw [if_pos quiet.free, there] at waits
  rw [there] at takes looks
  cases worker with
  | gone => exact .inr rfl
  | expired => cases looks
  | waiting job => cases job <;> cases waits
  | booting | running => cases quiet.not_holds listed
  | idle =>
    refine .inl ⟨rfl, ?_⟩
    cases queued : pool.queue with
    | nil => rfl
    | cons job rest =>
      rw [queued] at takes
      cases job <;> cases takes

theorem Quiet.empty (orderly : pool.Orderly) : pool.queue = [] := by
  by_contra queued
  have left : ∀ worker ∈ pool.workers, worker.isGone = true := by
    intro worker listed
    rcases quiet.resting listed with ⟨_, empty⟩ | rfl
    · exact absurd empty queued
    · rfl
  exact queued (orderly.dead (List.all_eq_true.mpr left))

/-- Nothing is left to do where no worker can do anything. -/
theorem Quiet.tally {M : Type} [AddCommMonoid M] {ofJob : Job → M} {ofWorker : Worker → M} (orderly : pool.Orderly)
    (idle : ofWorker .idle = 0) (gone : ofWorker .gone = 0) : pool.tally ofJob ofWorker = 0 := by
  have workers : ∀ worker ∈ pool.workers, ofWorker worker = 0 := by
    intro worker listed
    rcases quiet.resting listed with ⟨rfl, _⟩ | rfl
    · exact idle
    · exact gone
  rw [Pool.tally, quiet.empty orderly, List.map_nil, List.sum_nil, List.sum_eq_zero (by simpa using workers), add_zero]

/-- The owner does not have to wait for room. -/
theorem Quiet.request (orderly : pool.Orderly) (call : Call) : ∃ next, pool.request? call = some next := by
  unfold request?
  dsimp only
  split
  next => exact ⟨_, rfl⟩
  next =>
    rw [if_pos (by rw [quiet.empty orderly]; exact orderly.roomy)]
    exact ⟨_, rfl⟩

end Quiet

theorem mem_workerEvents : event ∈ pool.workerEvents ↔ ∃ worker < pool.workers.length,
    event = .advance worker ∨ event = .acquire worker ∨ event = .take worker ∨ event = .look worker ∨
      pool.closing = true ∧ event = .expire worker := by
  cases closing : pool.closing <;> simp [workerEvents, closing, List.mem_flatMap]

theorem ofWorker_of_mem (among : event ∈ pool.workerEvents) : event.ofWorker = true := by
  obtain ⟨_, _, rfl | rfl | rfl | rfl | ⟨_, rfl⟩⟩ := mem_workerEvents.mp among <;> rfl

/-- Every step that is due is among those that are tried. -/
theorem quiet_of_workerEvents (none : pool.workerEvents.findSome? (pool.step? machine) = none) :
    pool.Quiet machine := by
  intro event due
  have untried (worker : Nat) (named : event = .advance worker ∨ event = .acquire worker ∨ event = .take worker ∨
      event = .look worker) : pool.step? machine event = .none := by
    by_cases inside : worker < pool.workers.length
    · refine List.findSome?_eq_none_iff.mp none event (mem_workerEvents.mpr ⟨worker, inside, ?_⟩)
      rcases named with same | same | same | same <;> simp [same]
    · have outside : pool.workers[worker]? = .none := List.getElem?_eq_none (Nat.le_of_not_lt inside)
      rcases named with rfl | rfl | rfl | rfl <;> simp [step?, advance?, acquire?, take?, look?, outside]
  cases event with
  | launch | request | close | sendStop | expire => cases due
  | take worker | acquire worker | advance worker | look worker => exact untried worker (by simp)

/-- What an expired wait counts for when workers work: they leave a pool that is closing, and wait again otherwise. -/
def pace (pool : Pool σ) : Nat := if pool.closing then 1 else 3

theorem Moves.paced_lt (move : Moves machine pool event next) (works : event.ofWorker = true)
    (patient : pool.closing = false → ∀ worker, event ≠ .expire worker) :
    next.effort pool.pace < pool.effort pool.pace := by
  unfold pace
  cases closing : pool.closing with
  | true =>
    exact move.effort_lt works Nat.one_pos (fun _ _ => Nat.one_lt_two) fun taking => by
      cases closing.symm.trans taking
  | false =>
    exact move.effort_lt works (Nat.succ_pos 2) (fun worker same => absurd same (patient closing worker)) fun _ _ _ =>
      Nat.lt_succ_self 2

theorem Moves.closing_eq (move : Moves machine pool event next) (works : event.ofWorker = true) :
    next.closing = pool.closing := by
  cases move with
  | launch | refuse | accept | close | closeAgain | sendStop | forgoStop => cases works
  | _ => rfl

/-- Workers that can make enough steps make all that they can make. -/
theorem work_quiet (returns : machine.Returns) (unfinished : pool.Unfinished) {steps : Nat}
    (enough : pool.effort pool.pace ≤ steps) : (pool.work machine steps).Quiet machine := by
  induction steps generalizing pool with
  | zero =>
    intro event due
    by_contra possible
    obtain ⟨next, stepped⟩ := Option.ne_none_iff_exists'.mp possible
    have move := step?_moves returns unfinished stepped
    have less := move.paced_lt (PoolEvent.ofWorker_of_isDue due) fun _ worker same => by
      cases same
      cases due
    omega
  | succ steps ih =>
    unfold work
    split
    next next found =>
      obtain ⟨event, among, stepped⟩ := List.exists_of_findSome?_eq_some found
      have move := step?_moves returns unfinished stepped
      have works := ofWorker_of_mem among
      have less := move.paced_lt works fun taking worker same => by
        subst same
        simp [mem_workerEvents, taking] at among
      have same : next.pace = pool.pace := by rw [pace, move.closing_eq works, pace]
      exact ih (move.unfinished unfinished) (by rw [same]; omega)
    next none => exact quiet_of_workerEvents none

theorem effort_le (pool : Pool σ) (few : late ≤ 6) :
    pool.effort late ≤ 5 * (pool.queue.length + pool.workers.length) + pool.workers.length := by
  have jobs : (pool.queue.map fun _ => 5).sum = 5 * pool.queue.length := by simp [Nat.mul_comm]
  have workers : (pool.workers.map (Worker.effort late)).sum ≤ pool.workers.length * 6 := by
    have each := List.sum_le_card_nsmul (pool.workers.map (Worker.effort late)) 6 (by
      intro steps listed
      obtain ⟨worker, _, rfl⟩ := List.mem_map.mp listed
      exact worker.effort_le few)
    simpa using each
  rw [effort, tally, jobs]
  omega

theorem settle_quiet (returns : machine.Returns) (unfinished : pool.Unfinished) :
    (pool.settle machine).Quiet machine := by
  refine work_quiet returns unfinished (pool.effort_le ?_)
  unfold pace
  split <;> decide

end Pool
end Bytecode.Host
