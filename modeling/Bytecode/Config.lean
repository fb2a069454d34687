import Bytecode.Text.Blank
import Bytecode.Text.Unsigned

/-!
Settings of an assembler, and the environment variables that override them.
-/

namespace Bytecode

structure Config where
  /-- Verify the code once it is compiled. -/
  verify : Bool := true
  /-- Emit a local variable table. -/
  variableTable : Bool := true
  /-- The stack bound that methods are verified against and carry. -/
  maxStack : UInt16 := 255
  /-- Instruction visits after which verification gives up; zero counts as one. -/
  maxVisits : Nat := 100000
  deriving DecidableEq, Repr

namespace Config

def withMaxVisits (config : Config) (limit : Nat) : Config :=
  { config with maxVisits := max limit 1 }

/-- What turns a flag off; a blank text does as well. -/
def offWords : List String := ["0", "false", "off", "no", ""]

/-- A flag is on unless it says otherwise, in letters of either case. -/
def readFlag (text : String) : Bool :=
  let word := (Text.trimBlanks text.toList).map Char.toLower
  !offWords.contains (String.ofList word)

/-- The greatest limit, which fills 64 bits. -/
def greatestLimit : Nat := 18446744073709551615

/-- A limit that is no number, or exceeds the greatest one, is ignored. -/
def readLimit? (text : String) : Option Nat :=
  Text.unsigned? greatestLimit (Text.trimBlanks text.toList)

/-- The default settings with those that the environment gives. -/
def ofEnvironment (read : String → Option String) : Config :=
  let base : Config := {}
  let config : Config :=
    { base with
      verify := ((read "JASM_VERIFY").map readFlag).getD base.verify
      variableTable := ((read "JASM_VARIABLES").map readFlag).getD base.variableTable }
  match (read "JASM_MAX_VERIFY_ITERATIONS").bind readLimit? with
  | some limit => config.withMaxVisits limit
  | none => config

end Config
end Bytecode
