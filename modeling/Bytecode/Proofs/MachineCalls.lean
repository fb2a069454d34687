import Bytecode.Host.Machine

/-! The calls that invocations make into a machine. -/

namespace Bytecode.Host

/-- A call into a machine for an invocation. -/
inductive MachineCall where
  | find (owner : String)
  | prepare (className : String)
  | invoke (className : String) (call : Call)

/-- What an invocation calls next. -/
def Stage.machineCall? (call : Call) : Stage → Option MachineCall
  | find => some (.find call.owner)
  | prepare className => some (.prepare className)
  | invoke className => some (.invoke className call)
  | finished _ | crashed => none

/-- The calls that an invocation still makes at most. -/
def Stage.left : Stage → Nat
  | find => 3
  | prepare _ => 2
  | invoke _ => 1
  | finished _ | crashed => 0

/-- No call takes down whoever makes it. -/
structure Machine.Returns {σ : Type} (machine : Machine σ) : Prop where
  bootstrap : ∀ switches state, (machine.bootstrap switches state).1 ≠ .crash
  find : ∀ switches name state, (machine.findClass switches name state).1 ≠ .crash
  prepare : ∀ switches name state, (machine.prepareClass switches name state).1 ≠ .crash
  invoke : ∀ switches className call state, (machine.invoke switches className call state).1 ≠ .crash

variable {σ : Type} {machine : Machine σ} {switches : Switches} {start : σ}

/-- An invocation that nothing comes between, from the state it finds: the calls made so far, the stage it has
reached, and the state they leave. -/
inductive Call.Course (machine : Machine σ) (switches : Switches) (call : Call) (start : σ) :
    List MachineCall → Stage → σ → Prop where
  | find : Course machine switches call start [] .find start
  | missing {after} (found : machine.findClass switches call.owner start = (.done none, after)) :
    Course machine switches call start [.find call.owner] (.finished (.error (.classNotFound call.owner))) after
  | unloadable {fault after} (found : machine.findClass switches call.owner start = (.fault fault, after)) :
    Course machine switches call start [.find call.owner]
      (.finished (.error (.classInitFailed call.owner fault))) after
  | prepare {className after} (found : machine.findClass switches call.owner start = (.done (some className), after)) :
    Course machine switches call start [.find call.owner] (.prepare className) after
  | unprepared {className found fault after}
    (earlier : Course machine switches call start [.find call.owner] (.prepare className) found)
    (prepared : machine.prepareClass switches className found = (.fault fault, after)) :
    Course machine switches call start [.find call.owner, .prepare className]
      (.finished (.error (.classInitFailed className fault))) after
  | invoke {className found after}
    (earlier : Course machine switches call start [.find call.owner] (.prepare className) found)
    (prepared : machine.prepareClass switches className found = (.done (), after)) :
    Course machine switches call start [.find call.owner, .prepare className] (.invoke className) after
  | thrown {className ready fault after}
    (earlier : Course machine switches call start [.find call.owner, .prepare className] (.invoke className) ready)
    (invoked : machine.invoke switches className call ready = (.fault fault, after)) :
    Course machine switches call start [.find call.owner, .prepare className, .invoke className call]
      (.finished (.error fault)) after
  | returned {className ready value after}
    (earlier : Course machine switches call start [.find call.owner, .prepare className] (.invoke className) ready)
    (invoked : machine.invoke switches className call ready = (.done value, after)) :
    Course machine switches call start [.find call.owner, .prepare className, .invoke className call]
      (.finished (.ok value)) after

theorem Call.advance_ne_crashed (returns : machine.Returns) {call : Call} {stage : Stage} {made : MachineCall}
    (next : stage.machineCall? call = some made) (switches : Switches) (state : σ) :
    (call.advance machine switches stage state).1 ≠ .crashed := by
  cases stage with
  | find =>
    unfold Call.advance
    dsimp only
    split
    next => exact nofun
    next => exact nofun
    next => exact nofun
    next crashed => exact absurd (congrArg Prod.fst crashed) (returns.find switches call.owner state)
  | prepare className =>
    unfold Call.advance
    dsimp only
    split
    next => exact nofun
    next => exact nofun
    next crashed => exact absurd (congrArg Prod.fst crashed) (returns.prepare switches className state)
  | invoke className =>
    unfold Call.advance
    dsimp only
    split
    next => exact nofun
    next => exact nofun
    next crashed => exact absurd (congrArg Prod.fst crashed) (returns.invoke switches className call state)
  | finished _ | crashed => cases next

theorem Call.advance_left (machine : Machine σ) {call : Call} {stage : Stage} {made : MachineCall}
    (due : stage.machineCall? call = some made) (switches : Switches) (state : σ) :
    (call.advance machine switches stage state).1.left < stage.left := by
  unfold Call.advance
  cases stage with
  | find | prepare | invoke =>
    dsimp only
    split <;> simp [Stage.left]
  | finished _ | crashed => cases due

/-- The next call continues the course of an invocation, unless the machine crashes. -/
theorem Call.Course.advance {call : Call} {calls : List MachineCall} {stage next : Stage} {state after : σ}
    {made : MachineCall} (course : call.Course machine switches start calls stage state)
    (due : stage.machineCall? call = some made)
    (moved : call.advance machine switches stage state = (next, after)) (stands : next ≠ .crashed) :
    call.Course machine switches start (calls ++ [made]) next after := by
  cases course with
  | missing | unloadable | unprepared | thrown | returned => cases due
  | find =>
    cases due
    unfold Call.advance at moved
    dsimp only at moved
    split at moved
    next found => cases moved; exact .prepare found
    next found => cases moved; exact .missing found
    next found => cases moved; exact .unloadable found
    next => cases moved; exact absurd rfl stands
  | prepare found =>
    cases due
    unfold Call.advance at moved
    dsimp only at moved
    split at moved
    next prepared => cases moved; exact .invoke (.prepare found) prepared
    next prepared => cases moved; exact .unprepared (.prepare found) prepared
    next => cases moved; exact absurd rfl stands
  | invoke earlier prepared =>
    cases due
    unfold Call.advance at moved
    dsimp only at moved
    split at moved
    next invoked => cases moved; exact .returned (.invoke earlier prepared) invoked
    next invoked => cases moved; exact .thrown (.invoke earlier prepared) invoked
    next => cases moved; exact absurd rfl stands

/-- A call into a machine, and whom it is made for. -/
inductive Activity where
  | bootstrap
  | serve (ticket : Nat) (made : MachineCall)

/-- An invocation that was carried out. -/
structure Service where
  ticket : Nat
  call : Call
  reply : Reply

/-- Invocations that were carried out one after another. -/
inductive Served (machine : Machine σ) (switches : Switches) (start : σ) :
    List Service → List Activity → σ → Prop where
  | none : Served machine switches start [] [] start
  | next {services activity state ticket call calls reply after}
    (earlier : Served machine switches start services activity state)
    (course : call.Course machine switches state calls (.finished reply) after) :
    Served machine switches start (services ++ [⟨ticket, call, reply⟩]) (activity ++ calls.map (.serve ticket)) after

theorem Served.mem_tickets {services : List Service} {activity : List Activity} {state : σ}
    (served : Served machine switches start services activity state) {ticket : Nat} {made : MachineCall}
    (listed : .serve ticket made ∈ activity) : ticket ∈ services.map Service.ticket := by
  induction served with
  | none => cases listed
  | next _ _ ih =>
    rw [List.map_append]
    rcases List.mem_append.mp listed with early | late
    · exact List.mem_append_left _ (ih early)
    · obtain ⟨_, _, same⟩ := List.mem_map.mp late
      cases same
      exact List.mem_append_right _ List.mem_cons_self

end Bytecode.Host
