import Bytecode.Host.Machine

/-!
Workers that share one virtual machine. Jobs wait in a bounded queue; a worker takes one, waits
for the machine to be free, and holds it until the job is done. The first job brings the machine
up, and calls made before that has succeeded are answered at once. A worker that finds no job for
some time looks whether the pool is closing.
-/

namespace Bytecode.Host

/-- How far the machine has been brought up. -/
inductive Readiness where
  | starting
  | ready
  | failed (message : String)
  deriving DecidableEq, Repr

/-- Calls are answered under the number they were made with. -/
inductive Job where
  | bootstrap
  | invoke (ticket : Nat) (call : Call)
  | stop

/-- The answer to a call whose job is lost. -/
def Job.lost? : Job → Option (Nat × Reply)
  | invoke ticket _ => some (ticket, .error .shutdown)
  | bootstrap | stop => none

inductive Worker where
  /-- Waits for a job. -/
  | idle
  /-- Has waited for a job in vain, and has still to look whether the pool is closing. -/
  | expired
  /-- Has taken a job and waits for the machine. -/
  | waiting (job : Job)
  /-- Holds the machine to bring it up. -/
  | booting
  /-- Holds the machine for a call. -/
  | running (ticket : Nat) (call : Call) (stage : Stage)
  | gone

namespace Worker

def isGone : Worker → Bool
  | gone => true
  | _ => false

/-- The worker holds the machine. -/
def holds : Worker → Bool
  | booting | running .. => true
  | _ => false

end Worker

structure Pool (σ : Type) where
  state : σ
  switches : Switches
  readiness : Readiness
  capacity : Nat
  queue : List Job
  workers : List Worker
  /-- The first job has been put into the queue. -/
  launched : Bool
  /-- No more calls are taken, and workers leave that have waited for a job in vain. -/
  closing : Bool
  /-- Workers that the owner has still to ask to stop. -/
  owed : Nat
  /-- The number of the next call. -/
  issued : Nat
  replies : List (Nat × Reply)

/-- What can happen to a pool: a call of its owner, or a step of one of its workers. -/
inductive PoolEvent where
  /-- The first job is put into the queue; the owner makes its calls after that. -/
  | launch
  | request (call : Call)
  | close
  /-- The owner, which closes the pool, asks one more worker to stop. -/
  | sendStop
  /-- An idle worker takes the first job of the queue. -/
  | take (worker : Nat)
  /-- A worker that waits for the machine finds it free. -/
  | acquire (worker : Nat)
  /-- A worker that holds the machine makes its next call. -/
  | advance (worker : Nat)
  /-- The wait of an idle worker runs out while the queue is empty. -/
  | expire (worker : Nat)
  /-- A worker that has waited in vain looks whether the pool is closing: it leaves, or waits again. Whatever came
  into the queue since its wait ran out, it does not look there first. -/
  | look (worker : Nat)

namespace Pool

variable {σ : Type}

/-- At least one worker, and room for at least one job. -/
def start (state : σ) (switches : Switches) (workers capacity : Nat) : Pool σ where
  state := state
  switches := switches
  readiness := .starting
  capacity := max capacity 1
  queue := []
  workers := List.replicate (max workers 1) .idle
  launched := false
  closing := false
  owed := 0
  issued := 0
  replies := []

def setWorker (pool : Pool σ) (index : Nat) (worker : Worker) : Pool σ :=
  { pool with workers := pool.workers.set index worker }

def answer (pool : Pool σ) (ticket : Nat) (reply : Reply) : Pool σ :=
  { pool with replies := (ticket, reply) :: pool.replies }

def reply? (pool : Pool σ) (ticket : Nat) : Option Reply := pool.replies.lookup ticket

/-- The machine is held by no worker. -/
def isFree (pool : Pool σ) : Bool := !pool.workers.any Worker.holds

def isDead (pool : Pool σ) : Bool := pool.workers.all Worker.isGone

/-- The jobs that nobody is left to take. -/
def unclaimed (pool : Pool σ) : List Job := if pool.isDead then pool.queue else []

/-- Calls whose jobs nobody is left to take are answered that it is over. -/
def abandon (pool : Pool σ) : Pool σ :=
  { pool with
    queue := if pool.isDead then [] else pool.queue
    replies := pool.unclaimed.filterMap Job.lost? ++ pool.replies }

/-- A worker leaves; the queue goes with the last one. -/
def depart (pool : Pool σ) (index : Nat) : Pool σ := (pool.setWorker index .gone).abandon

/-- The job that brings the machine up comes first. -/
def launch (pool : Pool σ) : Pool σ :=
  if pool.launched then pool
  else { pool with queue := pool.queue ++ [.bootstrap], launched := true }

/-- The answer to a call that is not put into the queue. -/
def refusal? (pool : Pool σ) : Option Fault :=
  if pool.closing then some .shutdown
  else
    match pool.readiness with
    | .ready => if pool.isDead then some .shutdown else none
    | .starting => some .notReady
    | .failed message => some (.initFailed message)

/-- The owner makes a call; it has to wait while the queue is full. -/
def request? (pool : Pool σ) (call : Call) : Option (Pool σ) :=
  let ticket := pool.issued
  let pool := { pool with issued := ticket + 1 }
  match pool.refusal? with
  | some fault => some (pool.answer ticket (.error fault))
  | none =>
    if pool.queue.length < pool.capacity then
      some { pool with queue := pool.queue ++ [.invoke ticket call] }
    else none

/-- The owner closes the pool, and has then to ask every worker to stop. -/
def close (pool : Pool σ) : Pool σ :=
  if pool.closing then pool else { pool with closing := true, owed := pool.workers.length }

/-- The owner asks one worker to stop. It gives up once the queue is full. -/
def sendStop? (pool : Pool σ) : Option (Pool σ) :=
  match pool.owed with
  | 0 => none
  | owed + 1 =>
    if pool.isDead then some { pool with owed }
    else if pool.queue.length < pool.capacity then
      some { pool with queue := pool.queue ++ [.stop], owed }
    else some { pool with owed := 0 }

/-- Asks all workers to stop before any of them does something. -/
def sendStops (pool : Pool σ) : Pool σ :=
  (List.range pool.owed).foldl (fun pool _ => pool.sendStop?.getD pool) pool

def take? (pool : Pool σ) (index : Nat) : Option (Pool σ) :=
  match pool.workers[index]?, pool.queue with
  | some .idle, .stop :: rest => some ({ pool with queue := rest }.depart index)
  | some .idle, job :: rest => some ({ pool with queue := rest }.setWorker index (.waiting job))
  | _, _ => none

def acquire? (pool : Pool σ) (index : Nat) : Option (Pool σ) :=
  if pool.isFree then
    match pool.workers[index]? with
    | some (.waiting .bootstrap) => some (pool.setWorker index .booting)
    | some (.waiting (.invoke ticket call)) =>
      some (pool.setWorker index (.running ticket call .find))
    | some (.waiting .stop) => some (pool.depart index)
    | _ => none
  else none

/-- Brings the machine up. A crash of it does not take the worker down. -/
def boot (machine : Machine σ) (pool : Pool σ) (index : Nat) : Pool σ :=
  let (outcome, state) := machine.bootstrap pool.switches pool.state
  let readiness := match outcome with
    | .done () => .ready
    | .fault fault => .failed fault.message
    | .crash => .failed "vm bootstrap panicked"
  { pool with state, readiness }.setWorker index .idle

/-- Makes the next call of an invocation. Once it is finished its reply is given and the machine
is free; a crash takes the worker down instead. -/
def proceed (machine : Machine σ) (pool : Pool σ) (index ticket : Nat) (call : Call)
    (stage : Stage) : Pool σ :=
  let (stage, state) := call.advance machine pool.switches stage pool.state
  let pool := { pool with state }
  match stage with
  | .finished reply => (pool.answer ticket reply).setWorker index .idle
  | .crashed => (pool.answer ticket (.error .shutdown)).depart index
  | stage => pool.setWorker index (.running ticket call stage)

def advance? (machine : Machine σ) (pool : Pool σ) (index : Nat) : Option (Pool σ) :=
  match pool.workers[index]? with
  | some .booting => some (pool.boot machine index)
  | some (.running ticket call stage) => some (pool.proceed machine index ticket call stage)
  | _ => none

def expire? (pool : Pool σ) (index : Nat) : Option (Pool σ) :=
  match pool.workers[index]?, pool.queue with
  | some .idle, [] => some (pool.setWorker index .expired)
  | _, _ => none

def look? (pool : Pool σ) (index : Nat) : Option (Pool σ) :=
  match pool.workers[index]? with
  | some .expired => some (if pool.closing then pool.depart index else pool.setWorker index .idle)
  | _ => none

/-- The pool after an event, if the event can happen. -/
def step? (machine : Machine σ) (pool : Pool σ) : PoolEvent → Option (Pool σ)
  | .launch => if pool.launched then none else some pool.launch
  | .request call => if pool.launched then pool.request? call else none
  | .close => if pool.launched then some pool.close else none
  | .sendStop => pool.sendStop?
  | .take worker => pool.take? worker
  | .acquire worker => pool.acquire? worker
  | .advance worker => pool.advance? machine worker
  | .expire worker => pool.expire? worker
  | .look worker => pool.look? worker

/-- What a worker can do next, tried in this order. While the pool is open no wait runs out. -/
def workerEvents (pool : Pool σ) : List PoolEvent :=
  (List.range pool.workers.length).flatMap fun worker =>
    [.advance worker, .acquire worker, .take worker, .look worker] ++
      if pool.closing then [.expire worker] else []

/-- Lets workers work, one step at a time and at most so many. -/
def work (machine : Machine σ) : Nat → Pool σ → Pool σ
  | 0, pool => pool
  | steps + 1, pool =>
    match pool.workerEvents.findSome? (pool.step? machine) with
    | some pool => work machine steps pool
    | none => pool

/-- Lets workers work until none can do anything; a job takes at most five steps, and each worker
needs two to leave. -/
def settle (machine : Machine σ) (pool : Pool σ) : Pool σ :=
  pool.work machine (5 * (pool.queue.length + pool.workers.length) + pool.workers.length)

def isReady (pool : Pool σ) : Bool := pool.readiness == .ready

def size (pool : Pool σ) : Nat := pool.workers.length

/-- The text of a value, with strings read from the machine. -/
def render (machine : Machine σ) (pool : Pool σ) (value : Value) : String :=
  value.render (machine.readText pool.state)

end Pool
end Bytecode.Host
