import Bytecode.Host.Pool

/-!
A machine that plays a script: it answers from tables and keeps a log of the calls it gets. Its
pool is launched at once and lets workers work as soon as they can, except that a closed gate holds
up the first job.
-/

namespace Bytecode.Host

structure ScriptedClass where
  find : Outcome Unit
  prepare : Outcome Unit
  /-- The name of the class that is found. -/
  found : String

/-- What a scripted method does. -/
inductive Behaviour where
  | returns (value : Value)
  /-- Returns the argument at an index. -/
  | echo (index : Nat)
  /-- Returns the switches of the sandbox: one for reading and two for writing. -/
  | switches
  | ends (outcome : Outcome Unit)

structure Script where
  bootstrap : Outcome Unit
  classes : Named ScriptedClass
  methods : Named Behaviour
  strings : List (UInt64 × String)

/-- Calls in the order they were made, the last one first. -/
abbrev CallLog := List String

namespace Script

def outcomeAs {α : Type} (value : α) : Outcome Unit → Outcome α
  | .done () => .done value
  | .fault fault => .fault fault
  | .crash => .crash

def find (script : Script) (name : String) : Outcome (Option String) :=
  match script.classes.lookup name with
  | none => .done none
  | some scripted => outcomeAs (some scripted.found) scripted.find

def prepare (script : Script) (name : String) : Outcome Unit :=
  match script.classes.lookup name with
  | none => .done ()
  | some scripted => scripted.prepare

def invoke (script : Script) (switches : Switches) (call : Call) : Outcome Value :=
  match script.methods.lookup call.name with
  | none => .done .void
  | some (.returns value) => .done value
  | some (.echo index) => .done (call.arguments[index]?.getD .void)
  | some .switches =>
    .done (.int ((if switches.read then 1 else 0) + (if switches.write then 2 else 0)))
  | some (.ends outcome) => outcomeAs .void outcome

def callText (className : String) (call : Call) : String :=
  s!"invoke {className}.{call.name}{call.descriptor} static={call.isStatic} " ++
    s!"args={call.arguments.length}"

def machine (script : Script) : Machine CallLog where
  bootstrap _ log := (script.bootstrap, "bootstrap" :: log)
  findClass _ name log := (script.find name, s!"find {name}" :: log)
  prepareClass _ name log := (script.prepare name, s!"init {name}" :: log)
  invoke switches className call log := (script.invoke switches call, callText className call :: log)
  readText _ object := script.strings.lookup object.id

end Script

/-- A scripted machine behind its pool. -/
structure Rehearsal where
  script : Script
  pool : Pool CallLog
  gateClosed : Bool

namespace Rehearsal

/-- Lets workers work, if the gate is open. -/
def run (rehearsal : Rehearsal) : Rehearsal :=
  if rehearsal.gateClosed then rehearsal
  else { rehearsal with pool := rehearsal.pool.settle rehearsal.script.machine }

def start (script : Script) (workers capacity : Nat) (gateClosed : Bool) : Rehearsal :=
  run ⟨script, (Pool.start [] {} workers capacity).launch, gateClosed⟩

def openGate (rehearsal : Rehearsal) : Rehearsal := run { rehearsal with gateClosed := false }

/-- Makes a call, which is answered under the number returned. -/
def request (rehearsal : Rehearsal) (call : Call) : Rehearsal × Nat :=
  let ticket := rehearsal.pool.issued
  (run { rehearsal with pool := (rehearsal.pool.request? call).getD rehearsal.pool }, ticket)

def close (rehearsal : Rehearsal) : Rehearsal :=
  run { rehearsal with pool := rehearsal.pool.close.sendStops }

/-- Sets the switches that are given. -/
def setSwitches (rehearsal : Rehearsal) (read write : Option Bool) : Rehearsal :=
  let switches := rehearsal.pool.switches
  { rehearsal with
    pool := { rehearsal.pool with
      switches := ⟨read.getD switches.read, write.getD switches.write⟩ } }

/-- The calls since the log was last taken, in their order. -/
def takeLog (rehearsal : Rehearsal) : Rehearsal × List String :=
  ({ rehearsal with pool := { rehearsal.pool with state := [] } }, rehearsal.pool.state.reverse)

def render (rehearsal : Rehearsal) (value : Value) : String :=
  rehearsal.pool.render rehearsal.script.machine value

/-- The reply to a call; a call without one was given up. -/
def reply (rehearsal : Rehearsal) (ticket : Nat) : Reply :=
  (rehearsal.pool.reply? ticket).getD (.error .shutdown)

end Rehearsal
end Bytecode.Host
