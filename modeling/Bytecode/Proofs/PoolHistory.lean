import Bytecode.Proofs.PoolLosses
import Bytecode.Proofs.PoolProgress

/-! What has happened since a pool was started. Along every run the machine is brought up first and then called for
one invocation after another, and the calls of the owner are those that were refused, those that were carried out,
those that were lost with the queue, and those that still wait. -/

namespace Bytecode.Host
variable {σ : Type} {machine : Machine σ} {switches : Switches} {initial : σ}

/-- A call of the owner, and what the pool had told it by then. -/
structure Asked where
  ticket : Nat
  call : Call
  readiness : Readiness
  closing : Bool

namespace Asked

/-- The fault that a call is answered with at once. -/
def fault? (asked : Asked) : Option Fault :=
  if asked.closing then some .shutdown
  else
    match asked.readiness with
    | .ready => none
    | .starting => some .notReady
    | .failed message => some (.initFailed message)

theorem ready_of_accepted {asked : Asked} (accepted : asked.fault? = none) : asked.readiness = .ready := by
  unfold fault? at accepted
  split at accepted
  next => cases accepted
  next =>
    split at accepted
    next ready => exact ready
    all_goals cases accepted

def request (asked : Asked) : Nat × Call := (asked.ticket, asked.call)

def refusal? (asked : Asked) : Option (Nat × Reply) := asked.fault?.map fun fault => (asked.ticket, .error fault)

end Asked

namespace Service

def request (service : Service) : Nat × Call := (service.ticket, service.call)

def answer (service : Service) : Nat × Reply := (service.ticket, service.reply)

end Service

namespace Pool

/-- The call that the owner makes in an event. -/
def asked? (pool : Pool σ) : PoolEvent → Option Asked
  | .request call => some ⟨pool.issued, call, pool.readiness, pool.closing⟩
  | _ => none

/-- A pool refuses calls for nothing but what it has told its owner. -/
theorem Orderly.refusal?_eq {pool : Pool σ} (orderly : pool.Orderly) (call : Call) :
    pool.refusal? = (⟨pool.issued, call, pool.readiness, pool.closing⟩ : Asked).fault? := by
  unfold refusal? Asked.fault?
  cases closing : pool.closing with
  | true => rfl
  | false =>
    rw [orderly.not_dead closing]
    rfl

/-- The call into the machine that is made in an event. -/
def activity? (pool : Pool σ) : PoolEvent → Option Activity
  | .advance worker =>
    match pool.workers[worker]? with
    | some .booting => some .bootstrap
    | some (.running ticket call stage) => (stage.machineCall? call).map (.serve ticket)
    | _ => none
  | _ => none

end Pool

/-- A pool, and what has happened since its start: the calls of the owner, the calls into the machine, and the
changes of what is published. -/
structure History (σ : Type) where
  pool : Pool σ
  asked : List Asked
  activity : List Activity
  published : List Readiness
  /-- The pool as it was when it was closed. -/
  closed : Option (Pool σ)

namespace History

def start (state : σ) (switches : Switches) (workers capacity : Nat) : History σ :=
  ⟨.start state switches workers capacity, [], [], [], none⟩

/-- The history after an event that leaves a pool. -/
def next (history : History σ) (event : PoolEvent) (pool : Pool σ) : History σ where
  pool
  asked := history.asked ++ (history.pool.asked? event).toList
  activity := history.activity ++ (history.pool.activity? event).toList
  published := history.published ++ if pool.readiness = history.pool.readiness then [] else [pool.readiness]
  closed := if pool.closing = history.pool.closing then history.closed else some history.pool

def step? (machine : Machine σ) (history : History σ) (event : PoolEvent) : Option (History σ) :=
  (history.pool.step? machine event).map (history.next event)

/-- The history after events, if they can happen one after another. -/
def run? (machine : Machine σ) (history : History σ) : List PoolEvent → Option (History σ)
  | [] => some history
  | event :: rest => (history.step? machine event).bind fun next => next.run? machine rest

end History

/-- What a machine has been called for, by how far it was brought up and by who holds it: for nothing, for its
bootstrap alone, or after a bootstrap that succeeded for invocations one after another, of which the last may
not be finished. -/
inductive Works (machine : Machine σ) (switches : Switches) (initial : σ) :
    Readiness → Multiset Worker → List Activity → List Service → σ → Prop where
  | starting : Works machine switches initial .starting 0 [] [] initial
  | booting : Works machine switches initial .starting {.booting} [] [] initial
  | failed {fault after} (came : machine.bootstrap switches initial = (.fault fault, after)) :
    Works machine switches initial (.failed fault.message) 0 [.bootstrap] [] after
  | free {first services activity state} (came : machine.bootstrap switches initial = (.done (), first))
    (served : Served machine switches first services activity state) :
    Works machine switches initial .ready 0 (.bootstrap :: activity) services state
  | busy {first services activity middle ticket call calls stage state}
    (came : machine.bootstrap switches initial = (.done (), first))
    (served : Served machine switches first services activity middle)
    (course : call.Course machine switches middle calls stage state) :
    Works machine switches initial .ready {.running ticket call stage}
      (.bootstrap :: (activity ++ calls.map (.serve ticket))) services state

namespace Works
variable {readiness : Readiness} {holders : Multiset Worker} {activity : List Activity} {services : List Service}
  {state : σ}

theorem of_booting (works : Works machine switches initial readiness holders activity services state)
    (holds : .booting ∈ holders) :
    readiness = .starting ∧ holders = {.booting} ∧ activity = [] ∧ services = [] ∧ state = initial := by
  cases works with
  | starting | failed | free => cases Multiset.notMem_zero _ holds
  | booting => exact ⟨rfl, rfl, rfl, rfl, rfl⟩
  | busy => cases Multiset.mem_singleton.mp holds

theorem of_running (works : Works machine switches initial readiness holders activity services state) {ticket : Nat}
    {call : Call} {stage : Stage} (holds : .running ticket call stage ∈ holders) :
    readiness = .ready ∧ holders = {.running ticket call stage} ∧ ∃ first earlier middle calls,
      machine.bootstrap switches initial = (.done (), first) ∧
      Served machine switches first services earlier middle ∧
      call.Course machine switches middle calls stage state ∧
      activity = .bootstrap :: (earlier ++ calls.map (.serve ticket)) := by
  cases works with
  | starting | failed | free => cases Multiset.notMem_zero _ holds
  | booting => cases Multiset.mem_singleton.mp holds
  | busy came served course =>
    cases Multiset.mem_singleton.mp holds
    exact ⟨rfl, rfl, _, _, _, _, came, served, course, rfl⟩

theorem boot (works : Works machine switches initial readiness holders activity services state)
    (unready : readiness = .starting) (none : holders = 0) :
    Works machine switches initial readiness {.booting} activity services state := by
  cases works with
  | starting => exact .booting
  | booting | busy => cases Multiset.singleton_ne_zero _ none
  | failed | free => cases unready

theorem begin (works : Works machine switches initial readiness holders activity services state)
    (ready : readiness = .ready) (none : holders = 0) (ticket : Nat) (call : Call) :
    Works machine switches initial readiness {.running ticket call .find} activity services state := by
  cases works with
  | starting | booting | failed => cases ready
  | busy => cases Multiset.singleton_ne_zero _ none
  | @free _ _ earlier _ came served =>
    have begun : Works machine switches initial .ready {.running ticket call .find}
      (.bootstrap :: (earlier ++ List.map (.serve ticket) [])) services state := .busy came served .find
    rwa [List.map_nil, List.append_nil] at begun

theorem mem_tickets (works : Works machine switches initial readiness holders activity services state) {ticket : Nat}
    {made : MachineCall} (listed : .serve ticket made ∈ activity) :
    ticket ∈ services.map Service.ticket ∨ ∃ call stage, .running ticket call stage ∈ holders := by
  cases works with
  | starting | booting => cases listed
  | failed => cases List.mem_singleton.mp listed
  | free _ served =>
    rcases List.mem_cons.mp listed with same | listed
    · cases same
    · exact .inl (served.mem_tickets listed)
  | busy _ served =>
    rcases List.mem_cons.mp listed with same | listed
    · cases same
    · rcases List.mem_append.mp listed with early | late
      · exact .inl (served.mem_tickets early)
      · obtain ⟨_, _, same⟩ := List.mem_map.mp late
        cases same
        exact .inr ⟨_, _, Multiset.mem_singleton_self _⟩

theorem booted_of_serve (works : Works machine switches initial readiness holders activity services state)
    {ticket : Nat} {made : MachineCall} (listed : .serve ticket made ∈ activity) :
    ∃ booted, machine.bootstrap switches initial = (.done (), booted) := by
  cases works with
  | starting | booting => cases listed
  | failed => cases List.mem_singleton.mp listed
  | free came | busy came => exact ⟨_, came⟩

end Works

namespace History

/-- The machine has been brought up as far as the pool tells, and called for nothing else than invocations that
were accepted after that. -/
structure Stands (machine : Machine σ) (switches : Switches) (initial : σ) (history : History σ)
    (services : List Service) : Prop where
  fixed : history.pool.switches = switches
  works : Works machine switches initial history.pool.readiness history.pool.holders history.activity services
    history.pool.state
  boots : history.pool.boots ≤ if history.pool.readiness = .starting then 1 else 0
  fresh : history.pool.launched = false → history.pool.readiness = .starting ∧ history.pool.boots = 0
  early : history.pool.readiness ≠ .ready → history.pool.pending = 0
  published : history.published = if history.pool.readiness = .starting then [] else [history.pool.readiness]

/-- Calls that were accepted are carried out, lost or pending, and those that were not are answered. -/
structure Counted (history : History σ) (services : List Service) (lost : Multiset (Nat × Call)) : Prop where
  issued : history.asked.map Asked.ticket = List.range history.pool.issued
  accepted : ((history.asked.filter (·.fault?.isNone)).map Asked.request : Multiset (Nat × Call)) =
    (services.map Service.request : List (Nat × Call)) + lost + history.pool.pending
  replies : (history.pool.replies : Multiset (Nat × Reply)) =
    (history.asked.filterMap Asked.refusal? : List (Nat × Reply)) +
      (services.map Service.answer : List (Nat × Reply)) + lost.map lostAnswer

/-- What is lost, or still will be, was forsaken when the pool was closed. -/
structure Loses (history : History σ) (lost : Multiset (Nat × Call)) : Prop where
  taking : history.pool.closing = false → history.closed = none ∧ lost = 0
  closing : history.pool.closing = true → ∃ closed, history.closed = some closed ∧ .gone ∉ closed.workers ∧
    closed.forsaken = history.pool.forsaken + lost

variable {history : History σ} {services : List Service} {lost : Multiset (Nat × Call)} {event : PoolEvent}
  {pool : Pool σ}

/-- Most steps do not change how far the machine is brought up. -/
theorem Stands.frame (stands : history.Stands machine switches initial services) {others : List Service}
    (works : Works machine switches initial pool.readiness pool.holders
      (history.activity ++ (history.pool.activity? event).toList) others pool.state)
    (readiness : pool.readiness = history.pool.readiness) (same : pool.switches = history.pool.switches)
    (launched : pool.launched = history.pool.launched) (boots : pool.boots = history.pool.boots)
    (pending : history.pool.readiness ≠ .ready → pool.pending = history.pool.pending) :
    (history.next event pool).Stands machine switches initial others where
  fixed := same.trans stands.fixed
  works := works
  boots := by
    simp only [next, readiness, boots]
    exact stands.boots
  fresh := by
    simp only [next, readiness, launched, boots]
    exact stands.fresh
  early unready := by
    simp only [next, readiness] at unready
    exact (pending unready).trans (stands.early unready)
  published := by
    simp only [next, readiness, if_true, List.append_nil]
    exact stands.published

/-- Most of these do not change what it is called for either. -/
theorem Stands.idle (stands : history.Stands machine switches initial services)
    (readiness : pool.readiness = history.pool.readiness) (state : pool.state = history.pool.state)
    (same : pool.switches = history.pool.switches) (launched : pool.launched = history.pool.launched)
    (boots : pool.boots = history.pool.boots) (holders : pool.holders = history.pool.holders)
    (pending : history.pool.readiness ≠ .ready → pool.pending = history.pool.pending)
    (silent : history.pool.activity? event = none) :
    (history.next event pool).Stands machine switches initial services := by
  refine stands.frame ?_ readiness same launched boots pending
  rw [readiness, state, holders, silent, Option.toList_none, List.append_nil]
  exact stands.works

theorem Stands.pass (stands : history.Stands machine switches initial services) (passes : history.pool.Passes pool)
    (silent : history.pool.activity? event = none) :
    (history.next event pool).Stands machine switches initial services :=
  stands.idle (by rw [passes.same]) (by rw [passes.same]) (by rw [passes.same]) (by rw [passes.same]) passes.boots
    passes.holders (fun _ => passes.pending) silent

/-- Nothing else changes when jobs are lost. -/
theorem Stands.abandon (stands : (history.next event pool).Stands machine switches initial services) :
    (history.next event pool.abandon).Stands machine switches initial services where
  fixed := stands.fixed
  works := by
    have holders : pool.abandon.holders + (pool.unclaimed.map fun _ => 0).sum = pool.holders := Pool.tally_abandon pool
    rw [List.map_const', List.sum_replicate, nsmul_zero, add_zero] at holders
    have works := stands.works
    simp only [next] at works ⊢
    rw [holders]
    exact works
  boots := Nat.le_trans (Nat.le_of_add_right_le (Nat.le_of_eq (Pool.tally_abandon pool))) stands.boots
  fresh unlaunched := by
    obtain ⟨unready, none⟩ := stands.fresh unlaunched
    exact ⟨unready, Nat.eq_zero_of_add_eq_zero_right ((Pool.tally_abandon pool).trans none)⟩
  early unready := by
    have pending : pool.abandon.pending + (pool.unclaimed.map Job.calls).sum = 0 :=
      (Pool.tally_abandon pool).trans (stands.early unready)
    exact Multiset.le_zero.mp (pending ▸ Multiset.le_add_right _ _)
  published := stands.published

theorem Counted.frame (counted : history.Counted services lost) (issued : pool.issued = history.pool.issued)
    (replies : pool.replies = history.pool.replies) (pending : pool.pending = history.pool.pending)
    (silent : history.pool.asked? event = none) : (history.next event pool).Counted services lost where
  issued := by
    simp only [next, silent, Option.toList_none, List.append_nil, issued]
    exact counted.issued
  accepted := by
    simp only [next, silent, Option.toList_none, List.append_nil, pending]
    exact counted.accepted
  replies := by
    simp only [next, silent, Option.toList_none, List.append_nil, replies]
    exact counted.replies

theorem Counted.pass (counted : history.Counted services lost) (passes : history.pool.Passes pool)
    (silent : history.pool.asked? event = none) : (history.next event pool).Counted services lost :=
  counted.frame (by rw [passes.same]) (by rw [passes.same]) passes.pending silent

theorem Counted.abandon (counted : (history.next event pool).Counted services lost) :
    (history.next event pool.abandon).Counted services (lost + (pool.unclaimed.map Job.calls).sum) where
  issued := counted.issued
  accepted := by
    have pending : pool.abandon.pending + (pool.unclaimed.map Job.calls).sum = pool.pending := Pool.tally_abandon pool
    have accepted := counted.accepted
    simp only [next] at accepted ⊢
    rw [accepted, ← pending]
    ac_rfl
  replies := by
    have replies := counted.replies
    simp only [next, Pool.abandon] at replies ⊢
    rw [← Multiset.coe_add, replies, coe_filterMap_lost?, Multiset.map_add]
    ac_rfl

theorem Loses.frame (loses : history.Loses lost) (same : pool.closing = history.pool.closing)
    (kept : history.pool.closing = true → pool.forsaken = history.pool.forsaken) :
    (history.next event pool).Loses lost where
  taking taking := by
    simp only [next, same, if_true] at taking ⊢
    exact loses.taking taking
  closing closing := by
    simp only [next, same, if_true] at closing ⊢
    rw [kept closing]
    exact loses.closing closing

theorem Loses.pass (loses : history.Loses lost) (passes : history.pool.Passes pool)
    (kept : history.pool.closing = true → pool.forsaken = history.pool.forsaken) :
    (history.next event pool).Loses lost :=
  loses.frame (by rw [passes.same]) kept

theorem Loses.abandon (loses : (history.next event pool).Loses lost) (closing : pool.closing = true) :
    (history.next event pool.abandon).Loses (lost + (pool.unclaimed.map Job.calls).sum) where
  taking taking := by cases closing.symm.trans taking
  closing _ := by
    obtain ⟨closed, recorded, staffed, forsaken⟩ := loses.closing closing
    refine ⟨closed, recorded, staffed, forsaken.trans ?_⟩
    have left : pool.forsaken = _ := (Pool.forsaken_abandon pool).symm
    simp only [next]
    rw [left]
    ac_rfl

theorem Loses.close (loses : history.Loses lost) (orderly : history.pool.Orderly)
    (first : history.pool.closing = false) :
    (history.next .close { history.pool with closing := true, owed := history.pool.workers.length }).Loses lost where
  taking := nofun
  closing _ := by
    obtain ⟨-, none⟩ := loses.taking first
    refine ⟨history.pool, by simp [next, first], fun gone => ?_, none.symm ▸ (add_zero _).symm⟩
    cases first.symm.trans (orderly.gone gone)

section Stands
variable (stands : history.Stands machine switches initial services) {index : Nat}
include stands

theorem Stands.boot (free : history.pool.isFree = true)
    (waits : history.pool.workers[index]? = some (.waiting .bootstrap)) :
    (history.next (.acquire index) (history.pool.setWorker index .booting)).Stands machine switches initial
      services := by
  have none := Pool.holders_of_free free
  have unready : history.pool.readiness = .starting := by
    by_contra started
    obtain ⟨others, before, _⟩ := Pool.tally_setWorker Job.boots Worker.boots waits
    have due : history.pool.boots = 1 + others := before
    have most := stands.boots
    rw [if_neg started] at most
    omega
  refine stands.frame ?_ rfl rfl rfl (Pool.tally_keeps waits rfl) fun _ => Pool.tally_keeps waits rfl
  rw [Pool.holders_setWorker waits none .booting]
  exact (List.append_nil history.activity).symm ▸ stands.works.boot unready none

theorem Stands.begin {ticket : Nat} {call : Call} (free : history.pool.isFree = true)
    (waits : history.pool.workers[index]? = some (.waiting (.invoke ticket call))) :
    (history.next (.acquire index) (history.pool.setWorker index (.running ticket call .find))).Stands machine
      switches initial services := by
  have none := Pool.holders_of_free free
  have ready : history.pool.readiness = .ready := by
    by_contra unready
    obtain ⟨others, before, _⟩ := Pool.tally_setWorker Job.calls Worker.calls waits
    have pending : history.pool.pending = {(ticket, call)} + others := before
    rw [stands.early unready] at pending
    exact Multiset.notMem_zero (ticket, call) (pending ▸ Multiset.mem_add.mpr (.inl (Multiset.mem_singleton_self _)))
  refine stands.frame ?_ rfl rfl rfl (Pool.tally_keeps waits rfl) fun _ => Pool.tally_keeps waits rfl
  rw [Pool.holders_setWorker waits none]
  exact (List.append_nil history.activity).symm ▸ stands.works.begin ready none ticket call

/-- While a worker brings the machine up, nothing else has been done. -/
theorem Stands.of_booting (held : history.pool.workers[index]? = some .booting) :
    history.pool.readiness = .starting ∧ history.pool.holders = Worker.held .booting ∧ history.activity = [] ∧
      services = [] ∧ history.pool.state = initial ∧ history.pool.activity? (.advance index) = some .bootstrap := by
  obtain ⟨unready, holders, quiet, unserved, state⟩ :=
    stands.works.of_booting (Pool.mem_holders.mpr ⟨List.mem_of_getElem? held, rfl⟩)
  exact ⟨unready, holders, quiet, unserved, state, by simp [Pool.activity?, held]⟩

theorem Stands.boots_idle (held : history.pool.workers[index]? = some .booting) :
    (history.pool.setWorker index .idle).boots = 0 := by
  obtain ⟨others, before, after⟩ := Pool.tally_setWorker Job.boots Worker.boots held
  have due : history.pool.boots = 1 + others := before
  have left : (history.pool.setWorker index .idle).boots = 0 + others := after .idle
  have most := stands.boots
  rw [if_pos (stands.of_booting held).1] at most
  omega

theorem Stands.launched_of_booting (held : history.pool.workers[index]? = some .booting) :
    history.pool.launched = true := by
  by_contra unlaunched
  rw [Bool.not_eq_true] at unlaunched
  obtain ⟨others, before, -⟩ := Pool.tally_setWorker Job.boots Worker.boots held
  have due : history.pool.boots = 1 + others := before
  rw [(stands.fresh unlaunched).2] at due
  omega

theorem Stands.launch (unlaunched : history.pool.launched = false) :
    (history.next .launch
      { history.pool with queue := history.pool.queue ++ [.bootstrap], launched := true }).Stands machine switches
      initial services := by
  let launched : Pool σ := { history.pool with queue := history.pool.queue ++ [.bootstrap], launched := true }
  obtain ⟨unready, none⟩ := stands.fresh unlaunched
  have holders : launched.holders = history.pool.holders := Pool.tally_adds history.pool rfl
  have boots : launched.boots = history.pool.boots + 1 := Pool.tally_append _ _ history.pool _
  refine ⟨stands.fixed, ?_, ?_, nofun, fun early => ?_, ?_⟩
  · simp only [next, Pool.activity?, Option.toList_none, List.append_nil]
    exact holders.symm ▸ stands.works
  · have most : launched.boots ≤ 1 := Nat.le_of_eq (by rw [boots, none])
    exact (if_pos unready).symm ▸ most
  · exact (Pool.tally_adds history.pool rfl).trans (stands.early early)
  · simp only [next, if_true, List.append_nil]
    exact stands.published

theorem Stands.booted {state : σ} (held : history.pool.workers[index]? = some .booting)
    (came : machine.bootstrap history.pool.switches history.pool.state = (.done (), state)) :
    (history.next (.advance index) ({ history.pool with state, readiness := .ready }.setWorker index .idle)).Stands
      machine switches initial services := by
  obtain ⟨unready, holders, quiet, rfl, rfl, called⟩ := stands.of_booting held
  rw [stands.fixed] at came
  have none := Pool.holders_setWorker held holders .idle
  have launched := ne_false_of_eq_true (stands.launched_of_booting held)
  refine ⟨stands.fixed, ?_, ?_, fun fresh => absurd fresh launched, fun absent => absurd rfl absent, ?_⟩
  · simp only [next, quiet, called]
    exact none.symm ▸ .free came .none
  · exact Nat.le_trans (Nat.le_of_eq (stands.boots_idle held)) (Nat.zero_le _)
  · simp [next, Pool.setWorker, stands.published, unready]

theorem Stands.failed {fault : Fault} {state : σ} (held : history.pool.workers[index]? = some .booting)
    (came : machine.bootstrap history.pool.switches history.pool.state = (.fault fault, state)) :
    (history.next (.advance index)
      ({ history.pool with state, readiness := .failed fault.message }.setWorker index .idle)).Stands
      machine switches initial services := by
  obtain ⟨unready, holders, quiet, rfl, rfl, called⟩ := stands.of_booting held
  rw [stands.fixed] at came
  have none := Pool.holders_setWorker held holders .idle
  have idle : history.pool.pending = 0 := stands.early (by rw [unready]; nofun)
  have launched := ne_false_of_eq_true (stands.launched_of_booting held)
  refine ⟨stands.fixed, ?_, ?_, fun fresh => absurd fresh launched, fun _ => ?_, ?_⟩
  · simp only [next, quiet, called]
    exact none.symm ▸ .failed came
  · exact Nat.le_trans (Nat.le_of_eq (stands.boots_idle held)) (Nat.zero_le _)
  · have same : (history.pool.setWorker index .idle).pending = history.pool.pending := Pool.tally_keeps held rfl
    exact same.trans idle
  · simp [next, Pool.setWorker, stands.published, unready]

/-- While a worker runs an invocation, its calls follow on each other. -/
theorem Stands.of_running {ticket : Nat} {call : Call} {stage after : Stage} {made : MachineCall} {state : σ}
    (held : history.pool.workers[index]? = some (.running ticket call stage))
    (calls : stage.machineCall? call = some made)
    (moved : call.advance machine history.pool.switches stage history.pool.state = (after, state))
    (stood : after ≠ .crashed) :
    history.pool.readiness = .ready ∧ history.pool.holders = Worker.held (.running ticket call stage) ∧
      ∃ booted earlier middle sequence, machine.bootstrap switches initial = (.done (), booted) ∧
        Served machine switches booted services earlier middle ∧
        call.Course machine switches middle sequence after state ∧
        history.activity ++ (history.pool.activity? (.advance index)).toList =
          .bootstrap :: (earlier ++ sequence.map (.serve ticket)) := by
  obtain ⟨ready, holders, booted, earlier, middle, before, came, served, course, activity⟩ :=
    stands.works.of_running (Pool.mem_holders.mpr ⟨List.mem_of_getElem? held, rfl⟩)
  have called : history.pool.activity? (.advance index) = some (.serve ticket made) := by
    simp [Pool.activity?, held, calls]
  rw [stands.fixed] at moved
  refine ⟨ready, holders, booted, earlier, middle, before ++ [made], came, served,
    course.advance calls moved stood, ?_⟩
  simp [activity, called]

theorem Stands.proceed {ticket : Nat} {call : Call} {stage after : Stage} {made : MachineCall} {state : σ}
    (held : history.pool.workers[index]? = some (.running ticket call stage))
    (calls : stage.machineCall? call = some made)
    (moved : call.advance machine history.pool.switches stage history.pool.state = (after, state))
    (unfinished : (after.machineCall? call).isSome = true) :
    (history.next (.advance index) ({ history.pool with state }.setWorker index (.running ticket call after))).Stands
      machine switches initial services := by
  have stood : after ≠ .crashed := by
    rintro rfl
    cases unfinished
  obtain ⟨ready, holders, booted, earlier, middle, sequence, came, served, course, activity⟩ :=
    stands.of_running held calls moved stood
  have passed := Pool.holders_setWorker held holders (.running ticket call after)
  refine stands.frame ?_ rfl rfl rfl (Pool.tally_keeps held rfl) fun _ => Pool.tally_keeps held rfl
  rw [activity]
  exact ready.symm ▸ passed.symm ▸ .busy came served course

theorem Stands.finish {ticket : Nat} {call : Call} {stage : Stage} {made : MachineCall} {reply : Reply} {state : σ}
    (held : history.pool.workers[index]? = some (.running ticket call stage))
    (calls : stage.machineCall? call = some made)
    (moved : call.advance machine history.pool.switches stage history.pool.state = (.finished reply, state)) :
    (history.next (.advance index) (({ history.pool with state }.answer ticket reply).setWorker index .idle)).Stands
      machine switches initial (services ++ [⟨ticket, call, reply⟩]) := by
  obtain ⟨ready, holders, booted, earlier, middle, sequence, came, served, course, activity⟩ :=
    stands.of_running held calls moved nofun
  have passed := Pool.holders_setWorker held holders .idle
  refine stands.frame ?_ rfl rfl rfl (Pool.tally_keeps held rfl) fun unready => absurd ready unready
  rw [activity]
  exact ready.symm ▸ passed.symm ▸ .free came (.next served course)

end Stands

section Counted
variable (counted : history.Counted services lost)
include counted

theorem Counted.refuse {call : Call} {fault : Fault}
    (refused :
      (⟨history.pool.issued, call, history.pool.readiness, history.pool.closing⟩ : Asked).fault? = some fault) :
    (history.next (.request call)
      ({ history.pool with issued := history.pool.issued + 1 }.answer history.pool.issued (.error fault))).Counted
      services lost where
  issued := by
    simp only [next, Pool.asked?, Option.toList_some, List.map_append, counted.issued]
    exact List.range_succ.symm
  accepted := by
    simp only [next, Pool.asked?, Option.toList_some, List.filter_append]
    rw [List.filter_cons_of_neg (by simp [refused]), List.filter_nil, List.append_nil]
    exact counted.accepted
  replies := by
    simp only [next, Pool.asked?, Option.toList_some, List.filterMap_append, Pool.answer]
    rw [List.filterMap_cons_some (b := (history.pool.issued, .error fault)) (by simp [Asked.refusal?, refused]),
      List.filterMap_nil, ← Multiset.cons_coe, counted.replies, ← Multiset.coe_add, Multiset.coe_singleton,
      ← Multiset.singleton_add]
    ac_rfl

theorem Counted.accept {call : Call}
    (accepted : (⟨history.pool.issued, call, history.pool.readiness, history.pool.closing⟩ : Asked).fault? = none) :
    (history.next (.request call)
      { history.pool with
        issued := history.pool.issued + 1
        queue := history.pool.queue ++ [.invoke history.pool.issued call] }).Counted services lost where
  issued := by
    simp only [next, Pool.asked?, Option.toList_some, List.map_append, counted.issued]
    exact List.range_succ.symm
  accepted := by
    have grown : ({ history.pool with
        issued := history.pool.issued + 1
        queue := history.pool.queue ++ [.invoke history.pool.issued call] } : Pool σ).pending =
      history.pool.pending + {(history.pool.issued, call)} := Pool.tally_append _ _ history.pool _
    simp only [next, Pool.asked?, Option.toList_some, List.filter_append]
    rw [List.filter_cons_of_pos (by simp [accepted]), List.filter_nil, List.map_append, ← Multiset.coe_add,
      counted.accepted, grown, add_assoc]
    rfl
  replies := by
    simp only [next, Pool.asked?, Option.toList_some, List.filterMap_append]
    rw [List.filterMap_cons_none (by simp [Asked.refusal?, accepted]), List.filterMap_nil, List.append_nil]
    exact counted.replies

theorem Counted.finish {index ticket : Nat} {call : Call} {stage : Stage} (reply : Reply) (state : σ)
    (held : history.pool.workers[index]? = some (.running ticket call stage)) :
    (history.next (.advance index) (({ history.pool with state }.answer ticket reply).setWorker index .idle)).Counted
      (services ++ [⟨ticket, call, reply⟩]) lost where
  issued := by
    simp only [next, Pool.asked?, Option.toList_none, List.append_nil]
    exact counted.issued
  accepted := by
    obtain ⟨others, before, after⟩ := Pool.tally_setWorker Job.calls Worker.calls held
    have pending : history.pool.pending = {(ticket, call)} + others := before
    have left : (({ history.pool with state }.answer ticket reply).setWorker index .idle).pending = 0 + others :=
      after .idle
    simp only [next, Pool.asked?, Option.toList_none, List.append_nil, List.map_append]
    have last : ([⟨ticket, call, reply⟩].map Service.request : List (Nat × Call)) = [(ticket, call)] := rfl
    rw [counted.accepted, pending, left, zero_add, ← Multiset.coe_add, last, Multiset.coe_singleton]
    ac_rfl
  replies := by
    simp only [next, Pool.asked?, Option.toList_none, List.append_nil, List.map_append, Pool.setWorker, Pool.answer]
    have last : ([⟨ticket, call, reply⟩].map Service.answer : List (Nat × Reply)) = [(ticket, reply)] := rfl
    rw [← Multiset.cons_coe, counted.replies, ← Multiset.coe_add, last, Multiset.coe_singleton,
      ← Multiset.singleton_add]
    ac_rfl

end Counted

end History
end Bytecode.Host
