import Bytecode.Host.Fault
import Bytecode.Host.Sandbox
import Bytecode.Host.Value

/-!
A virtual machine as its callers see it: calls that change its state, and the stages in which one
invocation makes them.
-/

namespace Bytecode.Host

/-- How a call into a machine ends. -/
inductive Outcome (α : Type) where
  | done (value : α)
  | fault (fault : Fault)
  /-- The call takes down whoever made it. -/
  | crash
  deriving Repr

/-- A method to invoke; the arguments of an instance method begin with its receiver. -/
structure Call where
  owner : String
  name : String
  descriptor : String
  isStatic : Bool
  arguments : List Value
  deriving Repr

/-- A machine with states of a type. Every call sees the switches of the sandbox as they are when
it is made. -/
structure Machine (σ : Type) where
  bootstrap : Switches → σ → Outcome Unit × σ
  /-- Finds a class by name; the class found may have another name. -/
  findClass : Switches → String → σ → Outcome (Option String) × σ
  /-- Runs the static initializer of a class that has not been run. -/
  prepareClass : Switches → String → σ → Outcome Unit × σ
  /-- Calls a method of a class. -/
  invoke : Switches → String → Call → σ → Outcome Value × σ
  readText : σ → Instance → Option String

abbrev Reply := Except Fault Value

/-- How far an invocation has come. -/
inductive Stage where
  | find
  | prepare (className : String)
  | invoke (className : String)
  | finished (reply : Reply)
  | crashed

namespace Call

/-- Makes the next call of an invocation. -/
def advance {σ : Type} (machine : Machine σ) (switches : Switches) (call : Call) (stage : Stage)
    (state : σ) : Stage × σ :=
  match stage with
  | .find =>
    match machine.findClass switches call.owner state with
    | (.done (some className), state) => (.prepare className, state)
    | (.done none, state) => (.finished (.error (.classNotFound call.owner)), state)
    | (.fault fault, state) => (.finished (.error (.classInitFailed call.owner fault)), state)
    | (.crash, state) => (.crashed, state)
  | .prepare className =>
    match machine.prepareClass switches className state with
    | (.done (), state) => (.invoke className, state)
    | (.fault fault, state) => (.finished (.error (.classInitFailed className fault)), state)
    | (.crash, state) => (.crashed, state)
  | .invoke className =>
    match machine.invoke switches className call state with
    | (.done value, state) => (.finished (.ok value), state)
    | (.fault fault, state) => (.finished (.error fault), state)
    | (.crash, state) => (.crashed, state)
  | .finished reply => (.finished reply, state)
  | .crashed => (.crashed, state)

end Call
end Bytecode.Host
