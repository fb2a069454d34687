/-!
Access flags of a method and the modifiers that a definition names them by.
-/

namespace Bytecode

/-- A modifier written in front of a method definition. -/
inductive Modifier where
  | accPublic | accPrivate | accProtected | accStatic | accFinal | accSynchronized
  | accBridge | accVarargs | accNative | accAbstract | accStrict | accSynthetic
  deriving DecidableEq, Repr

/-- The flag word of a method. -/
structure AccessFlags where
  bits : UInt16
  deriving DecidableEq, Repr

namespace Modifier

def mask : Modifier → UInt16
  | accPublic => 0x0001
  | accPrivate => 0x0002
  | accProtected => 0x0004
  | accStatic => 0x0008
  | accFinal => 0x0010
  | accSynchronized => 0x0020
  | accBridge => 0x0040
  | accVarargs => 0x0080
  | accNative => 0x0100
  | accAbstract => 0x0400
  | accStrict => 0x0800
  | accSynthetic => 0x1000

def keyword : Modifier → String
  | accPublic => "public"
  | accPrivate => "private"
  | accProtected => "protected"
  | accStatic => "static"
  | accFinal => "final"
  | accSynchronized => "synchronized"
  | accBridge => "bridge"
  | accVarargs => "varargs"
  | accNative => "native"
  | accAbstract => "abstract"
  | accStrict => "strict"
  | accSynthetic => "synthetic"

def all : List Modifier :=
  [accPublic, accPrivate, accProtected, accStatic, accFinal, accSynchronized,
    accBridge, accVarargs, accNative, accAbstract, accStrict, accSynthetic]

def ofKeyword? (text : String) : Option Modifier := all.find? fun m => m.keyword == text

end Modifier

namespace AccessFlags

def ofModifiers (modifiers : List Modifier) : AccessFlags :=
  ⟨modifiers.foldl (fun bits modifier => bits ||| modifier.mask) 0⟩

def has (flags : AccessFlags) (modifier : Modifier) : Bool :=
  flags.bits &&& modifier.mask != 0

def isStatic (flags : AccessFlags) : Bool := flags.has .accStatic

def isAbstract (flags : AccessFlags) : Bool := flags.has .accAbstract

def isNative (flags : AccessFlags) : Bool := flags.has .accNative

/-- Abstract and native methods carry no code to verify. -/
def hasNoCode (flags : AccessFlags) : Bool := flags.isAbstract || flags.isNative

end AccessFlags
end Bytecode
