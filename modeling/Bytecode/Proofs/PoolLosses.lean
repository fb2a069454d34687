import Bytecode.Proofs.PoolSteps

/-! Which invocations are lost with the queue of a pool. A worker whose wait has run out does not look at the queue
again before it leaves a pool that is closing, so a job is lost if it waits while there are no other workers. -/

namespace Bytecode.Host
variable {σ : Type}

/-- The worker leaves a pool that is closing without another look at its queue. -/
def Worker.isLate : Worker → Bool
  | expired | gone => true
  | idle | waiting _ | booting | running .. => false

theorem Worker.isLate_of_isGone {worker : Worker} (gone : worker.isGone = true) : worker.isLate = true := by
  cases worker with
  | gone => rfl
  | _ => cases gone

/-- What the owner is told of a call whose job is lost. -/
def lostAnswer (request : Nat × Call) : Nat × Reply := (request.1, .error .shutdown)

theorem coe_filterMap_lost? (jobs : List Job) :
    ((jobs.filterMap Job.lost? : List (Nat × Reply)) : Multiset (Nat × Reply)) =
      (jobs.map Job.calls).sum.map lostAnswer := by
  induction jobs with
  | nil => rfl
  | cons job rest ih =>
    rw [List.map_cons, List.sum_cons, Multiset.map_add, ← ih]
    cases job with
    | invoke ticket call =>
      have lost : (Job.invoke ticket call).lost? = some (lostAnswer (ticket, call)) := rfl
      rw [List.filterMap_cons_some lost, ← Multiset.cons_coe]
      exact (Multiset.singleton_add (lostAnswer (ticket, call)) _).symm
    | bootstrap => exact (zero_add _).symm
    | stop => exact (zero_add _).symm

theorem calls_of_stops {jobs : List Job} (stops : ∀ job ∈ jobs, job = .stop) : (jobs.map Job.calls).sum = 0 := by
  apply Multiset.eq_zero_of_forall_notMem
  intro request among
  obtain ⟨job, listed, waits⟩ := Pool.mem_sum_map.mp among
  rw [stops job listed] at waits
  cases Multiset.notMem_zero request waits

theorem Job.mem_calls {job : Job} {ticket : Nat} {call : Call} :
    (ticket, call) ∈ job.calls ↔ job = .invoke ticket call := by
  cases job with
  | invoke => simp [calls, eq_comm]
  | bootstrap | stop => simp [calls]

namespace Pool
variable {pool : Pool σ}

/-- The invocations in the queue, if all workers would leave a pool that is closing without another look at it. -/
def forsaken (pool : Pool σ) : Multiset (Nat × Call) :=
  if pool.workers.all Worker.isLate then (pool.queue.map Job.calls).sum else 0

theorem mem_forsaken {ticket : Nat} {call : Call} : (ticket, call) ∈ pool.forsaken ↔
    (∀ worker ∈ pool.workers, worker.isLate = true) ∧ .invoke ticket call ∈ pool.queue := by
  unfold forsaken
  split
  next late =>
    rw [mem_sum_map]
    simp only [Job.mem_calls, exists_eq_right]
    exact (and_iff_right (List.all_eq_true.mp late)).symm
  next awake =>
    exact iff_of_false (Multiset.notMem_zero _) fun late => awake (List.all_eq_true.mpr late.1)

theorem forsaken_of_mem {worker : Worker} (listed : worker ∈ pool.workers) (looks : worker.isLate = false) :
    pool.forsaken = 0 := by
  refine if_neg fun late => ?_
  cases looks.symm.trans (List.all_eq_true.mp late worker listed)

theorem forsaken_of_stops (stops : ∀ job ∈ pool.queue, job = .stop) : pool.forsaken = 0 := by
  unfold forsaken
  split
  next => exact calls_of_stops stops
  next => rfl

theorem forsaken_append_stop (pool : Pool σ) :
    ({ pool with queue := pool.queue ++ [.stop] } : Pool σ).forsaken = pool.forsaken := by
  simp [forsaken, Job.calls]

/-- While a worker looks at the queue and goes on to do so, nothing is forsaken. -/
theorem forsaken_setWorker {index : Nat} {before worker : Worker} (there : pool.workers[index]? = some before)
    (looked : before.isLate = false) (looks : worker.isLate = false) :
    (pool.setWorker index worker).forsaken = pool.forsaken := by
  rw [forsaken_of_mem (List.mem_of_getElem? there) looked, forsaken_of_mem (setWorker_mem there worker) looks]

/-- A worker that leaves after its wait ran out would not have looked at the queue anyway. -/
theorem forsaken_leave {index : Nat} (expired : pool.workers[index]? = some .expired) :
    (pool.setWorker index .gone).forsaken = pool.forsaken := by
  have late : (pool.setWorker index .gone).workers.all Worker.isLate = pool.workers.all Worker.isLate := by
    rw [Bool.eq_iff_iff, List.all_eq_true, List.all_eq_true]
    constructor
    · intro late worker listed
      obtain ⟨other, there⟩ := List.mem_iff_getElem?.mp listed
      by_cases same : index = other
      · cases (same ▸ expired).symm.trans there
        rfl
      · exact late worker (List.mem_of_getElem? ((List.getElem?_set_ne same).trans there))
    · intro late worker listed
      rcases mem_setWorker listed with old | rfl
      · exact late worker old
      · rfl
  rw [forsaken, late]
  rfl

/-- What is lost with the queue was forsaken. -/
theorem forsaken_abandon (pool : Pool σ) :
    pool.abandon.forsaken + (pool.unclaimed.map Job.calls).sum = pool.forsaken := by
  cases dead : pool.isDead with
  | true =>
    have late : pool.workers.all Worker.isLate = true :=
      List.all_eq_true.mpr fun worker listed => Worker.isLate_of_isGone (List.all_eq_true.mp dead worker listed)
    simp [forsaken, abandon, unclaimed, dead, late]
  | false => simp [forsaken, abandon, unclaimed, dead]

end Pool
end Bytecode.Host
