import Bytecode.Opcode
import Bytecode.Proofs.Pointwise

/-! The forms of the instructions that move stack values of any type. A form says which of
the values it takes are wide, and which of them it puts back; it never splits a wide value. -/

namespace Bytecode
open List

/-- Values taken by whether they are wide, and values put back by their place among those
taken. The top of the stack comes first in both. -/
structure StackForm where
  taken : List Bool
  given : List Nat
  deriving DecidableEq

namespace StackForm

/-- The values put back for the values taken. -/
def arrange {α : Type} (form : StackForm) (taken : List α) : List α :=
  form.given.filterMap (taken[·]?)

/-- The forms of an opcode; at most one fits the values on a stack. -/
def ofOpcode : Opcode → List StackForm
  | .pop => [⟨[false], []⟩]
  | .pop2 => [⟨[true], []⟩, ⟨[false, false], []⟩]
  | .dup => [⟨[false], [0, 0]⟩]
  | .dupX1 => [⟨[false, false], [0, 1, 0]⟩]
  | .dupX2 => [⟨[false, true], [0, 1, 0]⟩, ⟨[false, false, false], [0, 1, 2, 0]⟩]
  | .dup2 => [⟨[true], [0, 0]⟩, ⟨[false, false], [0, 1, 0, 1]⟩]
  | .dup2X1 => [⟨[true, false], [0, 1, 0]⟩, ⟨[false, false, false], [0, 1, 2, 0, 1]⟩]
  | .dup2X2 =>
    [⟨[true, true], [0, 1, 0]⟩, ⟨[true, false, false], [0, 1, 2, 0]⟩,
      ⟨[false, false, true], [0, 1, 2, 0, 1]⟩,
      ⟨[false, false, false, false], [0, 1, 2, 3, 0, 1]⟩]
  | .swap => [⟨[false, false], [1, 0]⟩]
  | _ => []

variable {α β : Type}

theorem arrange_forall₂ {relation : α → β → Prop} {first : List α} {second : List β}
    (form : StackForm) (related : Forall₂ relation first second) :
    Forall₂ relation (form.arrange first) (form.arrange second) := by
  exact List.rel_filterMap (R := Eq) (fun _ _ same => same ▸ forall₂_getElem? related _)
    (List.forall₂_same.mpr fun _ _ => rfl)

theorem arrange_map (form : StackForm) (f : α → β) (taken : List α) :
    form.arrange (taken.map f) = (form.arrange taken).map f := by
  simp [arrange, List.map_filterMap]

end StackForm
end Bytecode
