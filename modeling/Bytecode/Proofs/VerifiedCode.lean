import Bytecode.Proofs.FixedPoint
import Bytecode.Proofs.PlacedLabels

/-! What a verification vouches for of the code that was emitted. An abstract method loses its code
before that; a native one keeps what code it has, and none of it is looked at. -/

namespace Bytecode
open Verify

namespace Assembly

/-- The method carries no code at all. -/
structure Bare (assembly : Assembly) : Prop where
  instructions : assembly.method.instructions = #[]
  ranges : assembly.method.ranges = []

/-- There is a frame or a gap for each instruction, and wherever control goes there is a frame that
the instruction accepts. -/
def Verified (assembly : Assembly) (verifier : Verifier) : Prop :=
  ∃ frames setting, assembly.frames = some frames ∧
    frames.size = assembly.method.instructions.size ∧
    verifier.setting assembly.method = .ok setting ∧
    ∀ moves index instruction, setting.flow.Path moves index →
      assembly.method.instructions[index]? = some instruction →
        ∃ before after, Holds frames index before ∧
          (transfer setting.around index instruction).run before = .ok ((), after)

end Assembly

theorem LabelTable.get?_of_none {listing : Listing} (none : listing.labels = []) (name : String) :
    (LabelTable.ofListing listing).get? name = .none := by
  simp [LabelTable.ofListing, none, LabelTable.get?, LabelTable.empty]

/-- A range takes labels, so where there are none there are no ranges either. -/
theorem ExceptionRange.ofListing_none {listing : Listing} {aliases : Aliases} {ranges : List ExceptionRange}
    (none : listing.labels = [])
    (resolved : ExceptionRange.ofListing listing (.ofListing listing) aliases = .ok ranges) : ranges = [] := by
  have each := mapM_ok_iff.mp resolved
  cases ranges with
  | nil => rfl
  | cons range rest =>
    obtain ⟨⟨line, written⟩, _, found, _, _⟩ := List.forall₂_cons_right_iff.mp each
    obtain ⟨start, known, _⟩ := except_bind_ok.mp found
    simp only [LabelTable.get?_of_none none] at known
    cases known

namespace Verify.Verifier
variable {verifier : Verifier} {method : Method} {frames : Array (Option Frame)}

/-- Wherever control goes in an accepted method, there is a frame that the instruction accepts. -/
theorem analyze_covers (code : method.access.hasNoCode = false) (accepted : verifier.analyze method = .ok frames) :
    ∃ setting, verifier.setting method = .ok setting ∧ frames.size = method.instructions.size ∧
      ∀ moves index instruction, setting.flow.Path moves index → method.instructions[index]? = some instruction →
        ∃ before after, Holds frames index before ∧
          (transfer setting.around index instruction).run before = .ok ((), after) := by
  obtain ⟨setting, prepared, consistent, _⟩ := analyze_least code accepted
  obtain ⟨_, _, built, _⟩ := setting_ok prepared
  have same := (Flow.ofMethod_ok built).1
  refine ⟨setting, prepared, by rw [consistent.size, Flow.size, same], ?_⟩
  intro moves index instruction path present
  obtain ⟨before, held⟩ := consistent.reaches path
  obtain ⟨after, done⟩ := consistent.accepts index instruction before (by rw [same]; exact present) held
  exact ⟨before, after, held, done⟩

end Verify.Verifier

namespace Assembler
variable {assembler : Assembler} {source : ReadListing} {assembly : Assembly}

/-- No code escapes the verification, unless the method is native and carries code nonetheless. -/
theorem code_verified_iff (compiled : assembler.compile source = .ok assembly)
    (verifies : assembler.config.verify = true) :
    (assembly.Bare ∨ assembly.Verified assembler.verifier) ↔
      (assembly.method.access.isNative = true → assembly.method.instructions = #[]) := by
  obtain ⟨header, _, ⟨_, _, bare⟩ | ⟨concrete, compilation, slots, emission, _, parts⟩⟩ := compile_ok compiled
  · rw [bare]
    exact ⟨fun _ _ => rfl, fun _ => .inl ⟨by rw [bare]; rfl, by rw [bare]; rfl⟩⟩
  · obtain ⟨frames, known⟩ := Option.isSome_iff_exists.mp (parts.observed.trans verifies)
    obtain ⟨accepted, _⟩ := parts.verified frames known
    have kept : assembly.method.access.isAbstract = false := by
      rw [parts.access]
      exact concrete
    cases native : assembly.method.access.isNative with
    | false =>
      have code : assembly.method.access.hasNoCode = false := by
        simp [AccessFlags.hasNoCode, kept, native]
      obtain ⟨setting, prepared, size, covers⟩ := Verifier.analyze_covers code accepted
      exact ⟨fun _ => nofun, fun _ => .inr ⟨frames, setting, known, size, prepared, covers⟩⟩
    | true =>
      have codeless : assembly.method.access.hasNoCode = true := by
        simp [AccessFlags.hasNoCode, native]
      rw [Verifier.analyze_of_hasNoCode _ codeless] at accepted
      cases accepted
      constructor
      · intro vouched _
        rcases vouched with bare | ⟨found, _, same, size, _⟩
        · exact bare.instructions
        · cases known.symm.trans same
          exact Array.size_eq_zero_iff.mp size.symm
      · intro empty
        left
        refine ⟨empty rfl, ExceptionRange.ofListing_none ?_ parts.ranges⟩
        have marks := Emission.marks_ofListing parts.emitted
        have none : emission.instructions = #[] := parts.instructions ▸ empty rfl
        simpa [Emission.marks, none] using marks.symm

/-- A method of a few operations without operands, each on a line of its own. -/
def short (modifiers : List Modifier) (opcodes : List Opcode) : ReadListing :=
  ⟨⟨⟨1, .definition ⟨modifiers, "n", [], "V"⟩⟩ ::
    opcodes.zipIdx.map fun (opcode, index) => ⟨index + 2, .operation (.simple opcode)⟩⟩, []⟩

def shortHeader (bits : UInt16) : Header := ⟨⟨bits⟩, "n", "()V", none, [], [], 1⟩

def defaults : Assembler := ⟨"Main", {}, []⟩

/-- A method that does nothing. -/
def idle : ReadListing := short [.accStatic] [.nop, .returnVoid]

theorem idle_compile : ∃ assembly, defaults.compile idle = .ok assembly := by
  have read : Header.ofListing idle.listing (.ofListing idle.listing) = .ok (shortHeader 8) := by
    decide +kernel
  have allocated : (defaults.initialSlots (shortHeader 8)).allocate
    (SlotUse.ofListing idle.listing (.ofListing idle.listing)) = (.ofMethod true "Main", .ok ()) := rfl
  have accepted : defaults.verifier.analyze (defaults.assemble (shortHeader 8) [] (.ofMethod true "Main")
      ⟨#[.simple .nop, .simple .returnVoid], ⟨#[⟨1, 2⟩, ⟨2, 3⟩]⟩, []⟩) =
        .ok #[some ⟨[], []⟩, some ⟨[], []⟩] := by decide +kernel
  exact ⟨_, compile_of_parts rfl read rfl rfl allocated rfl rfl accepted⟩

theorem code_verified_iff_idle : ∃ assembly, defaults.compile idle = .ok assembly ∧
    defaults.config.verify = true ∧ ((assembly.Bare ∨ assembly.Verified defaults.verifier) ↔
      (assembly.method.access.isNative = true → assembly.method.instructions = #[])) := by
  obtain ⟨assembly, compiled⟩ := idle_compile
  exact ⟨assembly, compiled, rfl, code_verified_iff compiled rfl⟩

/-- A native method that pops what is not there. -/
def unseen : ReadListing := short [.accStatic, .accNative] [.pop, .returnVoid]

theorem unseen_escapes : ∃ assembly, defaults.compile unseen = .ok assembly ∧
    defaults.config.verify = true ∧ ¬ (assembly.Bare ∨ assembly.Verified defaults.verifier) := by
  have read : Header.ofListing unseen.listing (.ofListing unseen.listing) = .ok (shortHeader 264) := by
    decide +kernel
  have allocated : (defaults.initialSlots (shortHeader 264)).allocate
    (SlotUse.ofListing unseen.listing (.ofListing unseen.listing)) = (.ofMethod true "Main", .ok ()) := rfl
  have codeless : AccessFlags.hasNoCode ⟨264⟩ = true := by decide
  refine ⟨_, compile_of_parts rfl read rfl rfl allocated rfl rfl (Verifier.analyze_of_hasNoCode _ codeless), rfl, ?_⟩
  intro vouched
  rcases vouched with bare | ⟨frames, _, known, size, _⟩
  · cases bare.instructions
  · cases known
    cases size

end Assembler
end Bytecode
