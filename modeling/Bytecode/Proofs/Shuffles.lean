import Bytecode.Proofs.StackForms
import Bytecode.Proofs.StepResults
import Bytecode.Verify.Transfer

/-! Instructions that move stack values of any type succeed exactly on the forms of their
opcode. The code pops one value after another and asks for its width on the way; the forms
look at all taken values at once. -/

namespace Bytecode.Verify.Step
open List

variable {after : Frame} {limit : Nat} {done : Unit} {locals stack : List Value}

private theorem popSingle_then {opcode : Opcode} {next : Value → Step Unit} :
    (popSingle opcode >>= next).run ⟨locals, stack⟩ = .ok (done, after) ↔
      ∃ top, top.isWide = false ∧ ∃ rest, stack = top :: rest ∧
        (next top).run ⟨locals, rest⟩ = .ok (done, after) := by
  simp only [bind_ok, popSingle_ok, Frame.mk.injEq]
  constructor
  · rintro ⟨top, middle, ⟨single, rfl, rfl⟩, kept⟩
    exact ⟨top, single, middle.stack, rfl, kept⟩
  · rintro ⟨top, single, rest, rfl, kept⟩
    exact ⟨top, ⟨locals, rest⟩, ⟨single, rfl, rfl⟩, kept⟩

private theorem pop_then {wide single : Value → Step Unit} :
    (pop >>= fun top => if top.isWide = true then wide top else single top).run ⟨locals, stack⟩ =
        .ok (done, after) ↔
      (∃ top, top.isWide = true ∧ ∃ rest, stack = top :: rest ∧
        (wide top).run ⟨locals, rest⟩ = .ok (done, after)) ∨
      ∃ top, top.isWide = false ∧ ∃ rest, stack = top :: rest ∧
        (single top).run ⟨locals, rest⟩ = .ok (done, after) := by
  simp only [bind_ok, pop_ok, Frame.mk.injEq]
  constructor
  · rintro ⟨top, middle, ⟨rfl, rfl⟩, kept⟩
    split at kept
    next double => exact .inl ⟨top, double, middle.stack, rfl, kept⟩
    next alone => exact .inr ⟨top, by simpa using alone, middle.stack, rfl, kept⟩
  · rintro (⟨top, double, rest, rfl, kept⟩ | ⟨top, alone, rest, rfl, kept⟩)
    · exact ⟨top, ⟨locals, rest⟩, ⟨rfl, rfl⟩, by simpa [double] using kept⟩
    · exact ⟨top, ⟨locals, rest⟩, ⟨rfl, rfl⟩, by simpa [alone] using kept⟩

private theorem takes_cons {wide : Bool} {more : List Bool} {claim : List Value → List Value → Prop} :
    (∃ taken : List Value, taken.map Value.isWide = wide :: more ∧
        ∃ rest, stack = taken ++ rest ∧ claim taken rest) ↔
      ∃ top, top.isWide = wide ∧ ∃ below, stack = top :: below ∧
        ∃ taken : List Value, taken.map Value.isWide = more ∧
          ∃ rest, below = taken ++ rest ∧ claim (top :: taken) rest := by
  constructor
  · rintro ⟨_ | ⟨top, taken⟩, same, rest, rfl, holds⟩
    · cases same
    · simp only [List.map_cons, List.cons.injEq] at same
      exact ⟨top, same.1, taken ++ rest, rfl, taken, same.2, rest, rfl, holds⟩
  · rintro ⟨top, rfl, _, rfl, taken, rfl, rest, rfl, holds⟩
    exact ⟨top :: taken, rfl, rest, rfl, holds⟩

private theorem takes_nil {claim : List Value → List Value → Prop} :
    (∃ taken : List Value, taken.map Value.isWide = [] ∧
      ∃ rest, stack = taken ++ rest ∧ claim taken rest) ↔ claim [] stack := by
  simp

/-- The only opcode that pops its second value before it looks at the first. -/
private theorem shuffle_dup2X1 : shuffle limit .dup2X1 = pop >>= fun first =>
    if first.isWide = true then
      popSingle .dup2X1 >>= fun second => pushAll limit [first, second, first]
    else popSingle .dup2X1 >>= fun second => popSingle .dup2X1 >>= fun third =>
      pushAll limit [second, first, third, second, first] := by
  show (pop >>= fun first => _) = _
  congr 1
  funext first
  split <;> rfl

theorem shuffle_ok {opcode : Opcode} :
    (shuffle limit opcode).run ⟨locals, stack⟩ = .ok (done, after) ↔
      ∃ form ∈ StackForm.ofOpcode opcode, ∃ taken, taken.map Value.isWide = form.taken ∧
        ∃ rest, stack = taken ++ rest ∧
          (form.given = [] ∨ stackHeight (form.arrange taken ++ rest) ≤ limit) ∧
            after = ⟨locals, form.arrange taken ++ rest⟩ := by
  -- Both sides become the same choice between ways to split the stack.
  cases opcode
  case pop | pop2 | dup | dupX1 | dupX2 | dup2 | dup2X1 | dup2X2 | swap =>
    first | rw [shuffle_dup2X1] | rw [shuffle]
    simp only [pop_then, popSingle_then, pushAll_ok, pure_ok, true_and, and_or_left, exists_or,
      or_assoc]
    simp only [StackForm.ofOpcode, List.exists_mem_cons_iff, List.not_mem_nil, false_and,
      exists_false, or_false, takes_cons, takes_nil, StackForm.arrange, true_or, true_and,
      List.filterMap_cons, List.filterMap_nil, List.getElem?_cons_zero, List.getElem?_cons_succ,
      List.reverse_cons, List.reverse_nil, List.nil_append, List.cons_append, reduceCtorEq,
      false_or]
  all_goals simp [shuffle, StackForm.ofOpcode]

end Bytecode.Verify.Step
