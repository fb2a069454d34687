/-!
What can go wrong between a caller and a virtual machine.
-/

namespace Bytecode.Host

/-- An exception as the machine reports it. -/
structure Throwable where
  className : String
  message : Option String
  deriving DecidableEq, Repr

inductive Fault where
  | classNotFound (owner : String)
  /-- A class exists and does not load, or its static initializer fails. -/
  | classInitFailed (owner : String) (source : Fault)
  /-- An exception with its causes, outermost first. -/
  | thrown (first : Throwable) (causes : List Throwable)
  | notReady
  | initFailed (message : String)
  | shutdown
  deriving DecidableEq, Repr

def Throwable.text (throwable : Throwable) : String :=
  match throwable.message with
  | some message => s!"{throwable.className}: {message}"
  | none => throwable.className

namespace Fault

def message : Fault → String
  | classNotFound owner => s!"Class not found in VM: {owner}"
  | classInitFailed owner _ => s!"Failed to initialize class {owner}"
  | thrown first _ => first.text
  | notReady => "VM is not initialized yet"
  | initFailed message => s!"VM failed to initialize: {message}"
  | shutdown => "VM integration is shut down"

/-- The message of a fault and of everything that caused it, outermost first. -/
def causes : Fault → List String
  | classInitFailed owner source => (classInitFailed owner source).message :: source.causes
  | thrown first rest => (first :: rest).map Throwable.text
  | other => [other.message]

end Fault
end Bytecode.Host
