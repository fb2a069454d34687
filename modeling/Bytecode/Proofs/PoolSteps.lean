import Bytecode.Host.Pool
import Bytecode.Proofs.MachineCalls
import Mathlib.Algebra.BigOperators.Group.Multiset.Basic
import Mathlib.Data.List.Perm.Basic

/-! What the steps of a pool do, told once for all that is proved of its runs, and sums over the jobs and the
workers of a pool, which tell what moves from where to where. -/

namespace Bytecode.Host

namespace Pool
variable {σ : Type}

/-- Every step of a pool whose machine does not crash. -/
inductive Moves (machine : Machine σ) (pool : Pool σ) : PoolEvent → Pool σ → Prop where
  | launch (unlaunched : pool.launched = false) :
    Moves machine pool .launch { pool with queue := pool.queue ++ [.bootstrap], launched := true }
  | refuse {call fault} (refused : pool.refusal? = some fault) :
    Moves machine pool (.request call) ({ pool with issued := pool.issued + 1 }.answer pool.issued (.error fault))
  | accept {call} (accepted : pool.refusal? = none) :
    Moves machine pool (.request call)
      { pool with issued := pool.issued + 1, queue := pool.queue ++ [.invoke pool.issued call] }
  | close (launched : pool.launched = true) (first : pool.closing = false) :
    Moves machine pool .close { pool with closing := true, owed := pool.workers.length }
  | closeAgain (closing : pool.closing = true) : Moves machine pool .close pool
  | sendStop {owed} (due : pool.owed = owed + 1) (staffed : pool.isDead = false) :
    Moves machine pool .sendStop { pool with queue := pool.queue ++ [.stop], owed }
  | forgoStop {owed} (due : owed < pool.owed) : Moves machine pool .sendStop { pool with owed }
  | takeStop {index rest} (idle : pool.workers[index]? = some .idle) (queued : pool.queue = .stop :: rest) :
    Moves machine pool (.take index) ({ pool with queue := rest }.depart index)
  | takeJob {index job rest} (idle : pool.workers[index]? = some .idle) (queued : pool.queue = job :: rest)
    (work : job ≠ .stop) : Moves machine pool (.take index) ({ pool with queue := rest }.setWorker index (.waiting job))
  | boot {index} (free : pool.isFree = true) (waits : pool.workers[index]? = some (.waiting .bootstrap)) :
    Moves machine pool (.acquire index) (pool.setWorker index .booting)
  | begin {index ticket call} (free : pool.isFree = true)
    (waits : pool.workers[index]? = some (.waiting (.invoke ticket call))) :
    Moves machine pool (.acquire index) (pool.setWorker index (.running ticket call .find))
  | acquireStop {index} (waits : pool.workers[index]? = some (.waiting .stop)) :
    Moves machine pool (.acquire index) (pool.depart index)
  | booted {index state} (held : pool.workers[index]? = some .booting)
    (came : machine.bootstrap pool.switches pool.state = (.done (), state)) :
    Moves machine pool (.advance index) ({ pool with state, readiness := .ready }.setWorker index .idle)
  | failed {index fault state} (held : pool.workers[index]? = some .booting)
    (came : machine.bootstrap pool.switches pool.state = (.fault fault, state)) :
    Moves machine pool (.advance index)
      ({ pool with state, readiness := .failed fault.message }.setWorker index .idle)
  | proceed {index ticket call stage made next state}
    (held : pool.workers[index]? = some (.running ticket call stage)) (calls : stage.machineCall? call = some made)
    (moved : call.advance machine pool.switches stage pool.state = (next, state))
    (unfinished : (next.machineCall? call).isSome = true) :
    Moves machine pool (.advance index) ({ pool with state }.setWorker index (.running ticket call next))
  | finish {index ticket call stage made reply state}
    (held : pool.workers[index]? = some (.running ticket call stage)) (calls : stage.machineCall? call = some made)
    (moved : call.advance machine pool.switches stage pool.state = (.finished reply, state)) :
    Moves machine pool (.advance index) (({ pool with state }.answer ticket reply).setWorker index .idle)
  | expire {index} (idle : pool.workers[index]? = some .idle) (queued : pool.queue = []) :
    Moves machine pool (.expire index) (pool.setWorker index .expired)
  | resume {index} (expired : pool.workers[index]? = some .expired) (taking : pool.closing = false) :
    Moves machine pool (.look index) (pool.setWorker index .idle)
  | leave {index} (expired : pool.workers[index]? = some .expired) (closing : pool.closing = true) :
    Moves machine pool (.look index) (pool.depart index)

/-- Workers that hold the machine for an invocation have not finished it. -/
def Unfinished (pool : Pool σ) : Prop :=
  ∀ ticket call stage, .running ticket call stage ∈ pool.workers → (stage.machineCall? call).isSome = true

section Moves
variable {machine : Machine σ} {pool next : Pool σ} {index : Nat}

theorem request_moves {call : Call} (asked : pool.request? call = some next) :
    Moves machine pool (.request call) next := by
  unfold request? at asked
  have same : { pool with issued := pool.issued + 1 }.refusal? = pool.refusal? := rfl
  dsimp only at asked
  rw [same] at asked
  cases refused : pool.refusal? with
  | some fault =>
    rw [refused] at asked
    cases asked
    exact .refuse refused
  | none =>
    rw [refused] at asked
    dsimp only at asked
    split at asked
    next =>
      cases asked
      exact .accept refused
    next => cases asked

theorem close_moves (launched : pool.launched = true) : Moves machine pool .close pool.close := by
  unfold close
  split
  next closing => exact .closeAgain closing
  next first => exact .close launched (by simpa using first)

theorem sendStop_moves (sent : pool.sendStop? = some next) : Moves machine pool .sendStop next := by
  unfold sendStop? at sent
  split at sent
  next => cases sent
  next owed due =>
    split at sent
    next =>
      cases sent
      exact .forgoStop (by omega)
    next staffed =>
      split at sent
      next =>
        cases sent
        exact .sendStop due (by simpa using staffed)
      next =>
        cases sent
        exact .forgoStop (by omega)

theorem take_moves (taken : pool.take? index = some next) : Moves machine pool (.take index) next := by
  unfold take? at taken
  split at taken
  next rest idle queued =>
    cases taken
    exact .takeStop idle queued
  next job rest work idle queued =>
    cases taken
    exact .takeJob idle queued work
  next => cases taken

theorem acquire_moves (acquired : pool.acquire? index = some next) : Moves machine pool (.acquire index) next := by
  unfold acquire? at acquired
  split at acquired
  next free =>
    split at acquired
    next waits =>
      cases acquired
      exact .boot free waits
    next waits =>
      cases acquired
      exact .begin free waits
    next waits =>
      cases acquired
      exact .acquireStop waits
    next => cases acquired
  next => cases acquired

theorem launch_moves (unlaunched : pool.launched = false) : Moves machine pool .launch pool.launch := by
  have launched : pool.launch = { pool with queue := pool.queue ++ [.bootstrap], launched := true } := by
    rw [launch, if_neg (by simp [unlaunched])]
  exact launched ▸ .launch unlaunched

theorem expire_moves (expired : pool.expire? index = some next) : Moves machine pool (.expire index) next := by
  unfold expire? at expired
  split at expired
  next idle queued =>
    cases expired
    exact .expire idle queued
  next => cases expired

theorem look_moves (looked : pool.look? index = some next) : Moves machine pool (.look index) next := by
  unfold look? at looked
  split at looked
  next expired =>
    cases looked
    split
    next closing => exact .leave expired closing
    next taking => exact .resume expired (by simpa using taking)
  next => cases looked

theorem boot_moves (returns : machine.Returns) (held : pool.workers[index]? = some .booting) :
    Moves machine pool (.advance index) (pool.boot machine index) := by
  have returns := returns.bootstrap pool.switches pool.state
  unfold Pool.boot
  generalize came : machine.bootstrap pool.switches pool.state = answer at returns
  obtain ⟨outcome, state⟩ := answer
  cases outcome with
  | crash => exact absurd rfl returns
  | fault fault => exact .failed held came
  | done => exact .booted held came

theorem proceed_moves (returns : machine.Returns) {ticket : Nat} {call : Call} {stage : Stage} {made : MachineCall}
    (held : pool.workers[index]? = some (.running ticket call stage)) (calls : stage.machineCall? call = some made) :
    Moves machine pool (.advance index) (pool.proceed machine index ticket call stage) := by
  have stands := call.advance_ne_crashed returns calls pool.switches pool.state
  unfold Pool.proceed
  generalize moved : call.advance machine pool.switches stage pool.state = answer at stands
  obtain ⟨next, state⟩ := answer
  cases next with
  | crashed => exact absurd rfl stands
  | finished reply => exact .finish held calls moved
  | find | prepare | invoke => exact .proceed held calls moved rfl

theorem advance_moves (returns : machine.Returns) (unfinished : pool.Unfinished)
    (advanced : pool.advance? machine index = some next) : Moves machine pool (.advance index) next := by
  unfold advance? at advanced
  split at advanced
  next held =>
    cases advanced
    exact boot_moves returns held
  next ticket call stage held =>
    obtain ⟨made, calls⟩ := Option.isSome_iff_exists.mp (unfinished _ _ _ (List.mem_of_getElem? held))
    cases advanced
    exact proceed_moves returns held calls
  next => cases advanced

/-- What a step of a pool does is one of its moves. -/
theorem step?_moves (returns : machine.Returns) (unfinished : pool.Unfinished) {event : PoolEvent}
    (stepped : pool.step? machine event = some next) : Moves machine pool event next := by
  unfold step? at stepped
  cases event with
  | launch =>
    dsimp only at stepped
    split at stepped
    next => cases stepped
    next unlaunched =>
      cases stepped
      exact launch_moves (by simpa using unlaunched)
  | request call =>
    dsimp only at stepped
    split at stepped
    next => exact request_moves stepped
    next => cases stepped
  | close =>
    dsimp only at stepped
    split at stepped
    next launched =>
      cases stepped
      exact close_moves launched
    next => cases stepped
  | sendStop => exact sendStop_moves stepped
  | take worker => exact take_moves stepped
  | acquire worker => exact acquire_moves stepped
  | advance worker => exact advance_moves returns unfinished stepped
  | expire worker => exact expire_moves stepped
  | look worker => exact look_moves stepped

end Moves
end Pool

/-- The invocations that a job waits to make. -/
def Job.calls : Job → Multiset (Nat × Call)
  | invoke ticket call => {(ticket, call)}
  | bootstrap | stop => 0

def Job.boots : Job → Nat
  | bootstrap => 1
  | invoke .. | stop => 0

namespace Worker

/-- The invocations that a worker has taken and not finished. -/
def calls : Worker → Multiset (Nat × Call)
  | waiting job => job.calls
  | running ticket call _ => {(ticket, call)}
  | idle | expired | booting | gone => 0

def boots : Worker → Nat
  | waiting job => job.boots
  | booting => 1
  | idle | expired | running .. | gone => 0

/-- The worker, if it holds the machine. -/
def held (worker : Worker) : Multiset Worker := if worker.holds then {worker} else 0

/-- The steps that a worker can make before it takes another job, if one whose wait has run out counts for so many. -/
def effort (late : Nat) : Worker → Nat
  | idle => 2
  | expired => late
  | waiting _ => 6
  | booting => 3
  | running _ _ stage => stage.left + 2
  | gone => 0

end Worker

namespace Pool

section Tally
variable {M : Type} [AddCommMonoid M] (ofJob : Job → M) (ofWorker : Worker → M)

/-- What the jobs in the queue and the workers amount to. -/
def tally (pool : Pool σ) : M := (pool.queue.map ofJob).sum + (pool.workers.map ofWorker).sum

variable {pool : Pool σ} {index : Nat} {worker : Worker} {job : Job} {rest : List Job}

theorem sum_set {workers : List Worker} (there : workers[index]? = some worker) :
    ∃ others : M, (workers.map ofWorker).sum = ofWorker worker + others ∧
      ∀ next, ((workers.set index next).map ofWorker).sum = ofWorker next + others := by
  obtain ⟨inside, rfl⟩ := List.getElem?_eq_some_iff.mp there
  refine ⟨((workers.eraseIdx index).map ofWorker).sum, ?_, fun next => ?_⟩
  · rw [← ((List.getElem_cons_eraseIdx_perm inside).map ofWorker).sum_eq, List.map_cons, List.sum_cons]
  · rw [((List.set_perm_cons_eraseIdx inside next).map ofWorker).sum_eq, List.map_cons, List.sum_cons]

theorem tally_setWorker (there : pool.workers[index]? = some worker) :
    ∃ others : M, pool.tally ofJob ofWorker = ofWorker worker + others ∧
      ∀ next, (pool.setWorker index next).tally ofJob ofWorker = ofWorker next + others := by
  obtain ⟨others, before, after⟩ := sum_set ofWorker there
  refine ⟨(pool.queue.map ofJob).sum + others, ?_, fun next => ?_⟩
  · rw [tally, before, add_left_comm]
  · rw [tally, setWorker, after, add_left_comm]

theorem tally_take (there : pool.workers[index]? = some worker) (queued : pool.queue = job :: rest) :
    ∃ others : M, pool.tally ofJob ofWorker = ofJob job + ofWorker worker + others ∧
      ∀ next, ({ pool with queue := rest }.setWorker index next).tally ofJob ofWorker = ofWorker next + others := by
  obtain ⟨others, before, after⟩ := sum_set ofWorker there
  refine ⟨(rest.map ofJob).sum + others, ?_, fun next => ?_⟩
  · rw [tally, before, queued, List.map_cons, List.sum_cons, add_add_add_comm]
  · rw [tally, setWorker, after, add_left_comm]

theorem tally_append (pool : Pool σ) (job : Job) :
    { pool with queue := pool.queue ++ [job] }.tally ofJob ofWorker = pool.tally ofJob ofWorker + ofJob job := by
  simp only [tally, List.map_append, List.map_cons, List.map_nil, List.sum_append, List.sum_singleton]
  rw [add_right_comm]

variable {ofJob ofWorker}

/-- A pool starts without jobs. -/
theorem tally_start (none : ofWorker .idle = 0) (state : σ) (switches : Switches) (workers capacity : Nat) :
    (start state switches workers capacity).tally ofJob ofWorker = 0 := by
  have idle : ((List.replicate (max workers 1) Worker.idle).map ofWorker).sum = 0 := by simp [none]
  rw [tally, start, List.map_nil, List.sum_nil, idle, add_zero]

theorem tally_adds (pool : Pool σ) {job : Job} (none : ofJob job = 0) :
    { pool with queue := pool.queue ++ [job] }.tally ofJob ofWorker = pool.tally ofJob ofWorker := by
  rw [tally_append, none, add_zero]

/-- A worker changes to one that counts the same. -/
theorem tally_keeps (there : pool.workers[index]? = some worker) {next : Worker}
    (same : ofWorker next = ofWorker worker) :
    (pool.setWorker index next).tally ofJob ofWorker = pool.tally ofJob ofWorker := by
  obtain ⟨others, before, after⟩ := tally_setWorker ofJob ofWorker there
  rw [before, after, same]

/-- A job goes from the queue to a worker that counts nothing. -/
theorem tally_hands (there : pool.workers[index]? = some worker) (queued : pool.queue = job :: rest) {next : Worker}
    (none : ofWorker worker = 0) (same : ofWorker next = ofJob job) :
    ({ pool with queue := rest }.setWorker index next).tally ofJob ofWorker = pool.tally ofJob ofWorker := by
  obtain ⟨others, before, after⟩ := tally_take ofJob ofWorker there queued
  rw [before, after, same, none, add_zero]

/-- What a pool loses was in its queue. -/
theorem tally_abandon (pool : Pool σ) :
    pool.abandon.tally ofJob ofWorker + (pool.unclaimed.map ofJob).sum = pool.tally ofJob ofWorker := by
  unfold abandon unclaimed tally
  split
  next => rw [List.map_nil, List.sum_nil, zero_add, add_comm]
  next => exact add_zero _

end Tally

/-- The invocations that were accepted and are not finished. -/
def pending (pool : Pool σ) : Multiset (Nat × Call) := pool.tally Job.calls Worker.calls

/-- How often the machine is still to be brought up. -/
def boots (pool : Pool σ) : Nat := pool.tally Job.boots Worker.boots

/-- The workers that hold the machine. -/
def holders (pool : Pool σ) : Multiset Worker := pool.tally (fun _ => 0) Worker.held

/-- The steps that the workers can make at most, if one whose wait has run out counts for so many. -/
def effort (late : Nat) (pool : Pool σ) : Nat := pool.tally (fun _ => 5) (Worker.effort late)

/-- Jobs change places, or stops come and go, and nothing else happens: whoever counts jobs counts the same. -/
structure Passes (pool next : Pool σ) : Prop where
  same : next = { pool with queue := next.queue, workers := next.workers, owed := next.owed }
  tally : ∀ {M : Type} [AddCommMonoid M] {ofJob : Job → M} {ofWorker : Worker → M}, ofJob .stop = 0 →
    ofWorker .idle = 0 → ofWorker .expired = 0 → ofWorker .gone = 0 → (∀ job, ofWorker (.waiting job) = ofJob job) →
    next.tally ofJob ofWorker = pool.tally ofJob ofWorker

section Passes
variable {pool next : Pool σ} {index : Nat}

theorem passes_owed (pool : Pool σ) (owed : Nat) : Passes pool { pool with owed } where
  same := rfl
  tally _ _ _ _ _ := rfl

theorem passes_sendStop (pool : Pool σ) (owed : Nat) :
    Passes pool { pool with queue := pool.queue ++ [.stop], owed } where
  same := rfl
  tally none _ _ _ _ := tally_adds pool none

theorem passes_takeStop {rest : List Job} (idle : pool.workers[index]? = some .idle)
    (queued : pool.queue = .stop :: rest) : Passes pool ({ pool with queue := rest }.setWorker index .gone) where
  same := rfl
  tally none idles _ leaves _ := tally_hands idle queued idles (leaves.trans none.symm)

theorem passes_takeJob {job : Job} {rest : List Job} (idle : pool.workers[index]? = some .idle)
    (queued : pool.queue = job :: rest) : Passes pool ({ pool with queue := rest }.setWorker index (.waiting job)) where
  same := rfl
  tally _ idles _ _ waits := tally_hands idle queued idles (waits job)

theorem passes_expire (idle : pool.workers[index]? = some .idle) : Passes pool (pool.setWorker index .expired) where
  same := rfl
  tally _ idles late _ _ := tally_keeps idle (late.trans idles.symm)

theorem passes_resume (expired : pool.workers[index]? = some .expired) : Passes pool (pool.setWorker index .idle) where
  same := rfl
  tally _ idles late _ _ := tally_keeps expired (idles.trans late.symm)

theorem passes_leave (expired : pool.workers[index]? = some .expired) : Passes pool (pool.setWorker index .gone) where
  same := rfl
  tally _ _ late leaves _ := tally_keeps expired (leaves.trans late.symm)

variable (passes : Passes pool next)
include passes

theorem Passes.pending : next.pending = pool.pending := passes.tally rfl rfl rfl rfl fun _ => rfl

theorem Passes.boots : next.boots = pool.boots := passes.tally rfl rfl rfl rfl fun _ => rfl

theorem Passes.holders : next.holders = pool.holders := passes.tally rfl rfl rfl rfl fun _ => rfl

end Passes

theorem mem_sum_map {α β : Type} {count : α → Multiset β} {items : List α} {part : β} :
    part ∈ (items.map count).sum ↔ ∃ item ∈ items, part ∈ count item := by
  induction items with
  | nil => simp
  | cons item rest ih => simp [ih]

theorem mem_pending_of_running {pool : Pool σ} {ticket : Nat} {call : Call} {stage : Stage}
    (listed : .running ticket call stage ∈ pool.workers) : (ticket, call) ∈ pool.pending :=
  Multiset.mem_add.mpr (.inr (mem_sum_map.mpr ⟨_, listed, Multiset.mem_singleton_self _⟩))

theorem mem_pending_of_queued {pool : Pool σ} {ticket : Nat} {call : Call}
    (queued : .invoke ticket call ∈ pool.queue) : (ticket, call) ∈ pool.pending :=
  Multiset.mem_add.mpr (.inl (mem_sum_map.mpr ⟨_, queued, Multiset.mem_singleton_self _⟩))

theorem mem_holders {pool : Pool σ} {worker : Worker} :
    worker ∈ pool.holders ↔ worker ∈ pool.workers ∧ worker.holds = true := by
  have idle : (pool.queue.map fun _ => (0 : Multiset Worker)).sum = 0 := by simp
  rw [holders, tally, idle, zero_add, mem_sum_map]
  constructor
  · rintro ⟨holder, listed, among⟩
    unfold Worker.held at among
    split at among
    next holds =>
      obtain rfl := Multiset.mem_singleton.mp among
      exact ⟨listed, holds⟩
    next => cases Multiset.notMem_zero _ among
  · rintro ⟨listed, holds⟩
    refine ⟨worker, listed, ?_⟩
    rw [Worker.held, if_pos holds]
    exact Multiset.mem_singleton_self _

theorem holders_of_free {pool : Pool σ} (free : pool.isFree = true) : pool.holders = 0 := by
  apply Multiset.eq_zero_of_forall_notMem
  intro worker among
  obtain ⟨listed, holds⟩ := mem_holders.mp among
  simp only [isFree, Bool.not_eq_true', List.any_eq_false] at free
  exact free worker listed holds

theorem mem_setWorker {pool : Pool σ} {index : Nat} {worker other : Worker}
    (listed : other ∈ (pool.setWorker index worker).workers) : other ∈ pool.workers ∨ other = worker :=
  List.mem_or_eq_of_mem_set listed

theorem setWorker_mem {pool : Pool σ} {index : Nat} {worker : Worker} (there : pool.workers[index]? = some worker)
    (next : Worker) : next ∈ (pool.setWorker index next).workers := by
  obtain ⟨inside, -⟩ := List.getElem?_eq_some_iff.mp there
  exact List.mem_set inside next

/-- A pool is not dead while somebody is there. -/
theorem not_dead_of_mem {pool : Pool σ} {worker : Worker} (listed : worker ∈ pool.workers)
    (stays : worker.isGone = false) : pool.isDead = false :=
  List.all_eq_false.mpr ⟨worker, listed, by simp [stays]⟩

/-- The machine passes from a worker to what it becomes, if nobody else holds it. -/
theorem holders_setWorker {pool : Pool σ} {index : Nat} {worker : Worker}
    (there : pool.workers[index]? = some worker) (whole : pool.holders = worker.held) (next : Worker) :
    (pool.setWorker index next).holders = next.held := by
  obtain ⟨others, before, after⟩ := tally_setWorker (fun _ => 0) Worker.held there
  have none : others = 0 := by
    rw [holders, before] at whole
    exact add_eq_left.mp whole
  rw [holders, after, none, add_zero]

theorem start_unfinished (state : σ) (switches : Switches) (workers capacity : Nat) :
    (start state switches workers capacity).Unfinished := by
  intro ticket call stage listed
  cases List.eq_of_mem_replicate listed

theorem Moves.unfinished {machine : Machine σ} {pool next : Pool σ} {event : PoolEvent}
    (move : Moves machine pool event next) (unfinished : pool.Unfinished) : next.Unfinished := by
  have changed (index : Nat) (worker : Worker)
      (fits : ∀ ticket call stage, worker = .running ticket call stage → (stage.machineCall? call).isSome = true) :
      (pool.setWorker index worker).Unfinished := by
    intro ticket call stage listed
    exact (mem_setWorker listed).elim (unfinished ticket call stage) fun same => fits ticket call stage same.symm
  cases move with
  | launch | refuse | accept | close | closeAgain | sendStop | forgoStop => exact unfinished
  | takeStop | takeJob | boot | acquireStop | booted | failed | finish | expire | resume | leave =>
    exact changed _ _ nofun
  | begin =>
    refine changed _ _ fun ticket call stage same => ?_
    cases same
    rfl
  | proceed held calls moved due =>
    refine changed _ _ fun ticket call stage same => ?_
    cases same
    exact due

end Pool
end Bytecode.Host
