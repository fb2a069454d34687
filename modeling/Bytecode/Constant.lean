import Bytecode.Decimal.Notation
import Bytecode.Text.Quoted

/-!
Constants that an instruction can load, and their text.
-/

namespace Bytecode

/-- A reference to a field or method by the kind of its use. -/
structure Handle where
  kind : UInt8
  owner : String
  name : String
  descriptor : String
  onInterface : Bool
  deriving DecidableEq, Repr

inductive Constant where
  | int (value : Int32)
  | long (value : Int64)
  /-- A number by its bit pattern, so that every NaN is kept. -/
  | float (bits : UInt32)
  | double (bits : UInt64)
  | string (text : String)
  /-- A class literal, by internal name or array descriptor. -/
  | type (name : String)
  | methodType (descriptor : String)
  | handle (target : Handle)
  deriving DecidableEq, Repr

/-- Numbers among operands are never written with an exponent, nor with an empty fraction. -/
def operandNumbers : Decimal.Style := ⟨"inf", "", "e", none⟩

def Handle.text (handle : Handle) : String :=
  s!"handle[{handle.kind}] {handle.owner}.{handle.name}{handle.descriptor}"

def Constant.text : Constant → String
  | int value => s!"{value}"
  | long value => s!"{value}L"
  | float bits => operandNumbers.render .single bits.toNat ++ "F"
  | double bits => operandNumbers.render .double bits.toNat ++ "D"
  | string text => Text.quote text
  | type name => s!"{name}.class"
  | methodType descriptor => s!"methodtype {descriptor}"
  | handle target => target.text

end Bytecode
