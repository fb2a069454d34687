import Bytecode.Host.Path

/-!
File access of code in the virtual machine, behind two switches. While reading is off every file
reads as empty, and while writing is off whatever is written is dropped. A stream goes on as it
was opened, whatever the switches do later. Files hold bytes, and are read as text in UTF-8.
-/

namespace Bytecode.Host

/-- The switches of a sandbox; both are off at first. -/
structure Switches where
  read : Bool := false
  write : Bool := false
  deriving DecidableEq, Repr

/-- Where the next bytes of a stream go. -/
inductive Writer where
  | discard
  | append (file : String)
  | overwrite (file : String) (offset : Nat)
  deriving DecidableEq, Repr

/-- Where the next bytes of a stream come from. A directory can be opened, but not read. -/
inductive Reader where
  | nothing
  | directory
  | file (name : String) (offset : Nat)
  deriving DecidableEq, Repr

/-- Values by name. -/
abbrev Named (α : Type) := List (String × α)

def Named.put {α : Type} (named : Named α) (name : String) (value : α) : Named α :=
  (name, value) :: named.filter (·.1 != name)

/-- One directory, the handles through which it is used, and their open streams. Handles that
were copied from one another share their switches. -/
structure Sandbox where
  files : Named (List UInt8)
  switches : Array Switches
  /-- The switches of each handle, by index. -/
  handles : Array Nat
  writers : Named Writer
  readers : Named Reader

namespace Sandbox

/-- An empty directory with one handle. -/
def empty : Sandbox := ⟨[], #[{}], #[0], [], []⟩

/-- Adds a handle with switches of its own. -/
def addHandle (sandbox : Sandbox) : Sandbox :=
  { sandbox with
    switches := sandbox.switches.push {}
    handles := sandbox.handles.push sandbox.switches.size }

/-- Adds a handle that shares the switches of another. -/
def copyHandle (sandbox : Sandbox) (handle : Nat) : Sandbox :=
  { sandbox with handles := sandbox.handles.push (sandbox.handles.getD handle 0) }

def switchesOf (sandbox : Sandbox) (handle : Nat) : Switches :=
  sandbox.switches.getD (sandbox.handles.getD handle 0) {}

/-- Sets the switches that are given. -/
def setSwitches (sandbox : Sandbox) (handle : Nat) (read write : Option Bool) : Sandbox :=
  { sandbox with
    switches := sandbox.switches.modify (sandbox.handles.getD handle 0) fun switches =>
      ⟨read.getD switches.read, write.getD switches.write⟩ }

def allSwitches (sandbox : Sandbox) : List Switches :=
  (List.range sandbox.handles.size).map sandbox.switchesOf

/-- Where a path leads; there are no directories within the directory. -/
def locate (sandbox : Sandbox) (creating : Bool) (path : String) : Except FileError Target :=
  Path.target (fun name => (sandbox.files.lookup name).isSome) creating path

/-- Opens a file for writing under a stream name, creating it or, unless at its end, emptying
it. -/
def openWrite (sandbox : Sandbox) (handle : Nat) (path : String) (atEnd : Bool) (stream : String) :
    Except FileError Sandbox := do
  if !(sandbox.switchesOf handle).write then
    return { sandbox with writers := Named.put sandbox.writers stream .discard }
  match ← sandbox.locate true path with
  | .directory => throw .isADirectory
  | .file name =>
    let content := if atEnd then (sandbox.files.lookup name).getD [] else []
    let writer : Writer := if atEnd then .append name else .overwrite name 0
    return { sandbox with
      files := Named.put sandbox.files name content
      writers := Named.put sandbox.writers stream writer }

/-- Opens a file or a directory for reading under a stream name. -/
def openRead (sandbox : Sandbox) (handle : Nat) (path stream : String) :
    Except FileError Sandbox := do
  let reader : Reader ←
    if !(sandbox.switchesOf handle).read then pure .nothing
    else match ← sandbox.locate false path with
      | .directory => pure .directory
      | .file name =>
        if (sandbox.files.lookup name).isSome then pure (.file name 0) else throw .notFound
  return { sandbox with readers := Named.put sandbox.readers stream reader }

/-- Writes at an offset, over what stands there; a gap before it reads as zeros. -/
def overwrite (content : List UInt8) (offset : Nat) (bytes : List UInt8) : List UInt8 :=
  if bytes.isEmpty then content
  else
    content.take offset ++ List.replicate (offset - content.length) 0 ++ bytes ++
      content.drop (offset + bytes.length)

def write (sandbox : Sandbox) (stream text : String) : Sandbox :=
  let bytes := text.toUTF8.toList
  match sandbox.writers.lookup stream with
  | some (.append file) =>
    let content := (sandbox.files.lookup file).getD []
    { sandbox with files := Named.put sandbox.files file (content ++ bytes) }
  | some (.overwrite file offset) =>
    let content := (sandbox.files.lookup file).getD []
    { sandbox with
      files := Named.put sandbox.files file (overwrite content offset bytes)
      writers := Named.put sandbox.writers stream (.overwrite file (offset + bytes.length)) }
  | some .discard | none => sandbox

/-- The text of which these are the bytes, if they are the bytes of any. -/
def decode? (bytes : List UInt8) : Option String := String.fromUTF8? bytes.toByteArray

/-- Reads a stream to its end. That is where it stands then, also if the bytes are no text. -/
def read (sandbox : Sandbox) (stream : String) : Sandbox × Except FileError String :=
  match sandbox.readers.lookup stream with
  | some (.file name offset) =>
    let bytes := ((sandbox.files.lookup name).getD []).drop offset
    ({ sandbox with
        readers := Named.put sandbox.readers stream (.file name (offset + bytes.length)) },
      (decode? bytes).elim (.error .notText) .ok)
  | some .directory => (sandbox, .error .isADirectory)
  | some .nothing | none => (sandbox, .ok "")

/-- What a file really holds, if that is text. -/
def content? (sandbox : Sandbox) (path : String) : Option String :=
  match sandbox.locate false path with
  | .ok (.file name) => (sandbox.files.lookup name).bind decode?
  | .ok .directory | .error _ => none

end Sandbox
end Bytecode.Host
