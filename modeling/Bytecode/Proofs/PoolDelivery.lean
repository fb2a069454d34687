import Bytecode.Proofs.PoolRuns

/-! What the owner of a pool gets for its calls: each is answered once, at the latest when the workers have come to
rest, and as soon as it is made if the machine is not up. A call that was accepted is carried out unless it is
stranded: the pool is closed while the call still waits and the wait of every worker has run out. -/

namespace Bytecode.Host
variable {σ : Type} {machine : Machine σ} {switches : Switches} {initial : σ}

namespace History
variable {history : History σ} {services : List Service} {lost : Multiset (Nat × Call)}

/-- Calls are answered at once or accepted. -/
theorem tickets_split (asked : List Asked) : ((asked.map Asked.ticket : List Nat) : Multiset Nat) =
    ((asked.filterMap Asked.refusal?).map Prod.fst : List Nat) +
      (((asked.filter (·.fault?.isNone)).map Asked.request).map Prod.fst : List Nat) := by
  induction asked with
  | nil => rfl
  | cons first rest ih =>
    rw [List.map_cons, ← Multiset.cons_coe, ih]
    cases refused : first.fault? with
    | none =>
      rw [List.filterMap_cons_none (by simp [Asked.refusal?, refused]), List.filter_cons_of_pos (by simp [refused]),
        List.map_cons, List.map_cons, ← Multiset.cons_coe, Multiset.add_cons]
      rfl
    | some fault =>
      rw [List.filterMap_cons_some (b := (first.ticket, .error fault)) (by simp [Asked.refusal?, refused]),
        List.filter_cons_of_neg (by simp [refused]), List.map_cons, ← Multiset.cons_coe, Multiset.cons_add]

section Counted
variable (counted : history.Counted services lost)
include counted

/-- Calls that were accepted are carried out, lost or pending. -/
theorem Counted.accepted_tickets :
    (((history.asked.filter (·.fault?.isNone)).map Asked.request).map Prod.fst : Multiset Nat) =
      (services.map Service.ticket : List Nat) + lost.map Prod.fst + history.pool.pending.map Prod.fst := by
  have accepted := congrArg (Multiset.map Prod.fst) counted.accepted
  simp only [Multiset.map_coe, Multiset.map_add] at accepted
  have same : (services.map Service.request).map Prod.fst = services.map Service.ticket := by
    rw [List.map_map]
    rfl
  rw [accepted, same]

/-- Every call has been answered or is pending. -/
theorem Counted.tickets : ((history.asked.map Asked.ticket : List Nat) : Multiset Nat) =
    (history.pool.replies.map Prod.fst : List Nat) + history.pool.pending.map Prod.fst := by
  have replies := congrArg (Multiset.map Prod.fst) counted.replies
  simp only [Multiset.map_coe, Multiset.map_add, Multiset.map_map] at replies
  have same : (services.map Service.answer).map Prod.fst = services.map Service.ticket := by
    rw [List.map_map]
    rfl
  have left : lost.map (Prod.fst ∘ lostAnswer) = lost.map Prod.fst := rfl
  rw [tickets_split, counted.accepted_tickets, replies, same, left]
  ac_rfl

theorem Counted.nodup : ((history.asked.map Asked.ticket : List Nat) : Multiset Nat).Nodup :=
  counted.issued ▸ Multiset.coe_nodup.mpr List.nodup_range

theorem Counted.once : (history.pool.replies.map Prod.fst).Nodup := by
  have all := counted.nodup
  rw [counted.tickets] at all
  exact (Multiset.nodup_add.mp all).1

/-- What was carried out, what was lost and what is pending are different calls. -/
theorem Counted.apart : ((services.map Service.ticket : List Nat) + lost.map Prod.fst +
    history.pool.pending.map Prod.fst : Multiset Nat).Nodup := by
  have all := counted.nodup
  rw [tickets_split, counted.accepted_tickets] at all
  exact (Multiset.nodup_add.mp all).2.1

theorem Counted.distinct : (services.map Service.ticket).Nodup :=
  (Multiset.nodup_add.mp (Multiset.nodup_add.mp counted.apart).1).1

theorem Counted.of_refused {asked : Asked} {fault : Fault} (listed : asked ∈ history.asked)
    (refused : asked.fault? = some fault) : (asked.ticket, .error fault) ∈ history.pool.replies ∧
      asked.ticket ∉ services.map Service.ticket ∧ asked.ticket ∉ history.pool.pending.map Prod.fst := by
  have among : (asked.ticket, .error fault) ∈ history.asked.filterMap Asked.refusal? :=
    List.mem_filterMap.mpr ⟨asked, listed, by simp [Asked.refusal?, refused]⟩
  have answered : (asked.ticket, .error fault) ∈ (history.pool.replies : Multiset (Nat × Reply)) :=
    counted.replies ▸ Multiset.mem_add.mpr (.inl (Multiset.mem_add.mpr (.inl among)))
  have all := counted.nodup
  rw [tickets_split, counted.accepted_tickets] at all
  have apart := Multiset.disjoint_left.mp (Multiset.nodup_add.mp all).2.2 (List.mem_map_of_mem among)
  refine ⟨answered, fun served => apart ?_, fun due => apart (Multiset.mem_add.mpr (.inr due))⟩
  exact Multiset.mem_add.mpr (.inl (Multiset.mem_add.mpr (.inl served)))

theorem Counted.of_served {service : Service} (listed : service ∈ services) :
    (service.ticket, service.reply) ∈ history.pool.replies ∧
      ∃ asked ∈ history.asked, asked.fault? = none ∧ asked.ticket = service.ticket ∧ asked.call = service.call := by
  have answered : service.answer ∈ (history.pool.replies : Multiset (Nat × Reply)) :=
    counted.replies ▸ Multiset.mem_add.mpr (.inl (Multiset.mem_add.mpr (.inr (List.mem_map_of_mem listed))))
  have accepted : service.request ∈ (history.asked.filter (·.fault?.isNone)).map Asked.request := by
    rw [← Multiset.mem_coe, counted.accepted]
    exact Multiset.mem_add.mpr (.inl (Multiset.mem_add.mpr (.inl (List.mem_map_of_mem listed))))
  obtain ⟨asked, among, same⟩ := List.mem_map.mp accepted
  obtain ⟨listed, taken⟩ := List.mem_filter.mp among
  exact ⟨answered, asked, listed, Option.isNone_iff_eq_none.mp taken, congrArg Prod.fst same, congrArg Prod.snd same⟩

theorem Counted.of_lost {ticket : Nat} {call : Call} (listed : (ticket, call) ∈ lost) :
    (ticket, .error .shutdown) ∈ history.pool.replies := by
  have answered : lostAnswer (ticket, call) ∈ (history.pool.replies : Multiset (Nat × Reply)) :=
    counted.replies ▸ Multiset.mem_add.mpr (.inr (Multiset.mem_map_of_mem lostAnswer listed))
  exact answered

theorem Counted.of_accepted (none : history.pool.pending = 0) {asked : Asked} (listed : asked ∈ history.asked)
    (accepted : asked.fault? = .none) :
    (∃ service ∈ services, service.ticket = asked.ticket ∧ service.call = asked.call) ∨ asked.request ∈ lost := by
  have among : asked.request ∈ (history.asked.filter (·.fault?.isNone)).map Asked.request :=
    List.mem_map_of_mem (List.mem_filter.mpr ⟨listed, Option.isNone_iff_eq_none.mpr accepted⟩)
  rw [← Multiset.mem_coe, counted.accepted, none, add_zero] at among
  rcases Multiset.mem_add.mp among with carried | lost
  · obtain ⟨service, served, same⟩ := List.mem_map.mp carried
    exact .inl ⟨service, served, congrArg Prod.fst same, congrArg Prod.snd same⟩
  · exact .inr lost

end Counted

/-- The pool was closed while the call with a number was in the queue and the wait of every worker had run out. -/
def Stranded (history : History σ) (ticket : Nat) : Prop :=
  ∃ closed, history.closed = some closed ∧ (∀ worker ∈ closed.workers, worker = .expired) ∧
    ∃ call, .invoke ticket call ∈ closed.queue

section Loses
variable (loses : history.Loses lost) {ticket : Nat}
include loses

theorem Loses.of_stranded (stranded : history.Stranded ticket) :
    ∃ call, (ticket, call) ∈ history.pool.forsaken ∨ (ticket, call) ∈ lost := by
  obtain ⟨closed, recorded, expired, call, queued⟩ := stranded
  cases closing : history.pool.closing with
  | false => cases (loses.taking closing).1.symm.trans recorded
  | true =>
    obtain ⟨other, same, -, forsaken⟩ := loses.closing closing
    cases recorded.symm.trans same
    have among : (ticket, call) ∈ closed.forsaken := by
      refine Pool.mem_forsaken.mpr ⟨fun worker listed => ?_, queued⟩
      rw [expired worker listed]
      rfl
    exact ⟨call, Multiset.mem_add.mp (forsaken ▸ among)⟩

theorem Loses.stranded {call : Call} (listed : (ticket, call) ∈ lost) : history.Stranded ticket := by
  cases closing : history.pool.closing with
  | false =>
    rw [(loses.taking closing).2] at listed
    cases Multiset.notMem_zero _ listed
  | true =>
    obtain ⟨closed, recorded, staffed, forsaken⟩ := loses.closing closing
    have among : (ticket, call) ∈ closed.forsaken := forsaken ▸ Multiset.mem_add.mpr (.inr listed)
    obtain ⟨late, queued⟩ := Pool.mem_forsaken.mp among
    refine ⟨closed, recorded, fun worker listed => ?_, call, queued⟩
    have leaves := late worker listed
    cases worker with
    | expired => rfl
    | gone => exact absurd listed staffed
    | _ => cases leaves

end Loses

/-- The delivery of replies, with the invocations that were carried out so far. -/
structure Delivers (machine : Machine σ) (switches : Switches) (initial : σ) (history : History σ)
    (services : List Service) : Prop where
  works : Works machine switches initial history.pool.readiness history.pool.holders history.activity services
    history.pool.state
  booted : ∀ ticket made, .serve ticket made ∈ history.activity →
    ∃ state, machine.bootstrap switches initial = (.done (), state)
  published : history.published.length ≤ 1
  numbered : history.asked.map Asked.ticket = List.range history.pool.issued
  once : (history.pool.replies.map Prod.fst).Nodup
  expected : ∀ ticket ∈ history.pool.replies.map Prod.fst, ∃ asked ∈ history.asked, asked.ticket = ticket
  refused : ∀ asked ∈ history.asked, ∀ fault, asked.fault? = some fault →
    (asked.ticket, .error fault) ∈ history.pool.replies ∧ ∀ made, .serve asked.ticket made ∉ history.activity
  distinct : (services.map Service.ticket).Nodup
  served : ∀ service ∈ services, (service.ticket, service.reply) ∈ history.pool.replies ∧
    ∃ asked ∈ history.asked, asked.fault? = none ∧ asked.ticket = service.ticket ∧ asked.call = service.call
  stranded : ∀ ticket, history.Stranded ticket → (∀ made, .serve ticket made ∉ history.activity) ∧
    (history.pool.Quiet machine → (ticket, .error .shutdown) ∈ history.pool.replies)
  settled : history.pool.Quiet machine → ∀ asked ∈ history.asked,
    (∃! reply, (asked.ticket, reply) ∈ history.pool.replies) ∧
      (asked.fault? = none → (∃ service ∈ services, service.ticket = asked.ticket ∧ service.call = asked.call) ∨
        history.Stranded asked.ticket)
  unblocked : history.pool.launched = true → history.pool.Quiet machine → ∀ call,
    ∃ last, history.step? machine (.request call) = some last
  rests : ∀ events last, (∀ event ∈ events, event.ofWorker = true) → history.run? machine events = some last →
    events.countP PoolEvent.isWork ≤ history.pool.effort 2 ∧
      (history.pool.closing = true → events.length ≤ history.pool.effort 1)
  settles : ∃ events last, (∀ event ∈ events, event.ofWorker = true) ∧ history.run? machine events = some last ∧
    last.pool.Quiet machine

section Sound
variable (sound : history.Sound machine switches initial services lost)
include sound

/-- A call that has reached the machine has been carried out or holds the machine. -/
theorem Sound.mem_of_served {ticket : Nat} {made : MachineCall} (called : .serve ticket made ∈ history.activity) :
    ticket ∈ services.map Service.ticket ∨ ∃ call stage, .running ticket call stage ∈ history.pool.workers := by
  rcases sound.stands.works.mem_tickets called with served | ⟨call, stage, holds⟩
  · exact .inl served
  · exact .inr ⟨call, stage, (Pool.mem_holders.mp holds).1⟩

theorem Sound.unserved_of_refused {asked : Asked} {fault : Fault} (listed : asked ∈ history.asked)
    (refused : asked.fault? = some fault) (made : MachineCall) : .serve asked.ticket made ∉ history.activity := by
  intro called
  obtain ⟨-, unserved, absent⟩ := sound.counted.of_refused listed refused
  rcases sound.mem_of_served called with served | ⟨call, stage, held⟩
  · exact unserved served
  · exact absent (Multiset.mem_map_of_mem Prod.fst (Pool.mem_pending_of_running held))

/-- A call that is stranded is not carried out, and no worker has it. -/
theorem Sound.idle_of_stranded {ticket : Nat} (stranded : history.Stranded ticket) :
    ticket ∉ services.map Service.ticket ∧ ∀ call stage, .running ticket call stage ∉ history.pool.workers := by
  obtain ⟨apart, -, separate⟩ := Multiset.nodup_add.mp sound.counted.apart
  obtain ⟨call, forsaken | gone⟩ := sound.loses.of_stranded stranded
  · obtain ⟨late, queued⟩ := Pool.mem_forsaken.mp forsaken
    refine ⟨fun served => ?_, fun _ _ held => by cases late _ held⟩
    refine Multiset.disjoint_left.mp separate (Multiset.mem_add.mpr (.inl served)) ?_
    exact Multiset.mem_map_of_mem Prod.fst (Pool.mem_pending_of_queued queued)
  · have among : ticket ∈ lost.map Prod.fst := Multiset.mem_map_of_mem Prod.fst gone
    refine ⟨fun served => Multiset.disjoint_left.mp (Multiset.nodup_add.mp apart).2.2 served among, fun _ _ held => ?_⟩
    refine Multiset.disjoint_left.mp separate (Multiset.mem_add.mpr (.inr among)) ?_
    exact Multiset.mem_map_of_mem Prod.fst (Pool.mem_pending_of_running held)

theorem Sound.unserved_of_stranded {ticket : Nat} (stranded : history.Stranded ticket) (made : MachineCall) :
    .serve ticket made ∉ history.activity := by
  intro called
  obtain ⟨unserved, absent⟩ := sound.idle_of_stranded stranded
  rcases sound.mem_of_served called with served | ⟨call, stage, held⟩
  · exact unserved served
  · exact absent call stage held

section Quiet
variable (quiet : history.pool.Quiet machine)
include quiet

theorem Sound.answered_of_stranded {ticket : Nat} (stranded : history.Stranded ticket) :
    (ticket, .error .shutdown) ∈ history.pool.replies := by
  obtain ⟨call, forsaken | lost⟩ := sound.loses.of_stranded stranded
  · obtain ⟨-, queued⟩ := Pool.mem_forsaken.mp forsaken
    rw [quiet.empty sound.orderly] at queued
    cases queued
  · exact sound.counted.of_lost lost

theorem Sound.served_or_stranded {asked : Asked} (listed : asked ∈ history.asked) (accepted : asked.fault? = none) :
    (∃ service ∈ services, service.ticket = asked.ticket ∧ service.call = asked.call) ∨
      history.Stranded asked.ticket :=
  (sound.counted.of_accepted (quiet.tally sound.orderly rfl rfl) listed accepted).imp_right sound.loses.stranded

theorem Sound.answered {asked : Asked} (listed : asked ∈ history.asked) :
    ∃! reply, (asked.ticket, reply) ∈ history.pool.replies := by
  have answered : ∃ reply, (asked.ticket, reply) ∈ history.pool.replies := by
    cases refused : asked.fault? with
    | some fault => exact ⟨_, (sound.counted.of_refused listed refused).1⟩
    | none =>
      rcases sound.served_or_stranded quiet listed refused with ⟨service, among, same, _⟩ | stranded
      · exact ⟨_, same ▸ (sound.counted.of_served among).1⟩
      · exact ⟨_, sound.answered_of_stranded quiet stranded⟩
  obtain ⟨reply, given⟩ := answered
  refine ⟨reply, given, fun other also => ?_⟩
  exact congrArg Prod.snd (List.inj_on_of_nodup_map sound.counted.once also given rfl)

end Quiet

theorem Sound.delivers (returns : machine.Returns) : history.Delivers machine switches initial services where
  works := sound.stands.works
  booted _ _ := sound.stands.works.booted_of_serve
  published := by
    rw [sound.stands.published]
    split
    · exact Nat.zero_le _
    · exact Nat.le_refl _
  numbered := sound.counted.issued
  once := sound.counted.once
  expected ticket answered := by
    have listed : ticket ∈ ((history.asked.map Asked.ticket : List Nat) : Multiset Nat) :=
      sound.counted.tickets ▸ Multiset.mem_add.mpr (.inl answered)
    obtain ⟨asked, among, same⟩ := List.mem_map.mp listed
    exact ⟨asked, among, same⟩
  refused _ listed _ refused := ⟨(sound.counted.of_refused listed refused).1, sound.unserved_of_refused listed refused⟩
  distinct := sound.counted.distinct
  served _ := sound.counted.of_served
  stranded _ stranded := ⟨sound.unserved_of_stranded stranded, fun quiet => sound.answered_of_stranded quiet stranded⟩
  settled quiet _ listed := ⟨sound.answered quiet listed, sound.served_or_stranded quiet listed⟩
  unblocked launched quiet call := by
    obtain ⟨pool, asked⟩ := quiet.request sound.orderly call
    refine ⟨history.next (.request call) pool, Option.map_eq_some_iff.mpr ⟨pool, ?_, rfl⟩⟩
    exact (if_pos launched).trans asked
  rests _ _ works ran := ⟨sound.work_le returns works ran, fun closing => sound.length_le returns closing works ran⟩
  settles := by
    obtain ⟨events, last, works, ran, same⟩ := run?_work machine history _
    exact ⟨events, last, works, ran, same ▸ Pool.settle_quiet returns sound.unfinished⟩

end Sound

/-- Whatever the size of a pool and of its queue, and in whatever order its owner and its workers do what they can
do: calls are carried out one after another and only after the machine was brought up, each has at most one reply,
and all have theirs when the workers have come to rest, which they can do at any time. The calls that were accepted
and not carried out by then are those that were stranded. -/
theorem served_iff_not_stranded {workers capacity : Nat} {events : List PoolEvent} (returns : machine.Returns)
    (ran : (start initial switches workers capacity).run? machine events = some history) :
    ∃ services, history.Delivers machine switches initial services ∧
      (history.pool.Quiet machine → ∀ asked ∈ history.asked, asked.fault? = none →
        ((∃ service ∈ services, service.ticket = asked.ticket ∧ service.call = asked.call) ↔
          ¬ history.Stranded asked.ticket)) := by
  obtain ⟨services, lost, sound⟩ := (start_sound machine initial switches workers capacity).run returns ran
  refine ⟨services, sound.delivers returns, fun quiet asked listed accepted => ?_⟩
  constructor
  · rintro ⟨service, served, same, _⟩ stranded
    exact (sound.idle_of_stranded stranded).1 (same ▸ List.mem_map_of_mem served)
  · exact (sound.served_or_stranded quiet listed accepted).resolve_right

/-- Counts the calls that it gets. -/
def counter : Machine Nat where
  bootstrap _ count := (.done (), count + 1)
  findClass _ name count := (.done (some name), count + 1)
  prepareClass _ _ count := (.done (), count + 1)
  invoke _ _ _ count := (.done .void, count + 1)
  readText _ _ := none

theorem counter_returns : counter.Returns := ⟨nofun, nofun, nofun, nofun⟩

def tick : Call := ⟨"Clock", "tick", "()V", true, []⟩

/-- One call comes too early, and one still waits while the pool closes without room to ask a worker to stop. The wait
of one worker has run out by then, but another still looks for jobs. -/
def lateClose : List PoolEvent :=
  [.expire 1, .launch, .look 1, .request tick, .take 0, .acquire 0, .advance 0, .expire 1, .request tick, .close,
    .sendStop, .take 0, .look 1, .acquire 0, .advance 0, .advance 0, .advance 0, .expire 0, .look 0]

theorem lateClose_runs : ∃ history, (start 0 {} 2 1).run? counter lateClose = some history ∧
    history.pool.Quiet counter ∧ history.asked = [⟨0, tick, .starting, false⟩, ⟨1, tick, .ready, false⟩] ∧
      history.pool.replies = [(1, .ok .void), (0, .error .notReady)] ∧
      ∃ closed, history.closed = some closed ∧ closed.workers = [.idle, .expired] := by
  refine ⟨_, rfl, ?_, rfl, rfl, _, rfl, rfl⟩
  intro event due
  cases event with
  | launch | request | close | sendStop | expire => cases due
  | take worker | acquire worker | advance worker | look worker => rcases worker with _ | _ | worker <;> rfl

theorem served_iff_not_stranded_lateClose : ∃ history services,
    (start 0 {} 2 1).run? counter lateClose = some history ∧ history.pool.Quiet counter ∧
      history.pool.replies = [(1, .ok .void), (0, .error .notReady)] ∧ ¬ history.Stranded 1 ∧
      history.Delivers counter {} 0 services ∧ ∃ service ∈ services, service.ticket = 1 ∧ service.call = tick := by
  obtain ⟨history, ran, quiet, asked, replies, closed, recorded, workers⟩ := lateClose_runs
  obtain ⟨services, delivers, carried⟩ := served_iff_not_stranded counter_returns ran
  have afloat : ¬ history.Stranded 1 := by
    rintro ⟨other, same, expired, -⟩
    cases recorded.symm.trans same
    cases expired .idle (workers ▸ List.mem_cons_self)
  have listed : (⟨1, tick, .ready, false⟩ : Asked) ∈ history.asked := by simp [asked]
  exact ⟨history, services, ran, quiet, replies, afloat, delivers, (carried quiet _ listed rfl).mpr afloat⟩

/-- The wait of the only worker runs out, a call is accepted, and the pool is closed before the worker looks. -/
def lateLook : List PoolEvent :=
  [.launch, .take 0, .acquire 0, .advance 0, .expire 0, .request tick, .close, .sendStop, .look 0]

/-- The call was accepted by a machine that is up, but never reaches it. -/
theorem lateLook_loses_call : ∃ history, (start 0 {} 1 2).run? counter lateLook = some history ∧
    history.pool.Quiet counter ∧ history.asked = [⟨0, tick, .ready, false⟩] ∧
      (⟨0, tick, .ready, false⟩ : Asked).fault? = none ∧ history.pool.replies = [(0, .error .shutdown)] ∧
      history.activity = [.bootstrap] := by
  refine ⟨_, rfl, ?_, rfl, rfl, rfl, rfl⟩
  intro event due
  cases event with
  | launch | request | close | sendStop | expire => cases due
  | take worker | acquire worker | advance worker | look worker => rcases worker with _ | worker <;> rfl

end History
end Bytecode.Host
