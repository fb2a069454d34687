import Bytecode.Proofs.CallSites
import Bytecode.Proofs.Failures

/-! Aliases as substitution: a listing with its aliases written out. Every pass reads an operand
of the listing as it reads the replaced one of the expanded listing, the names of call sites apart. -/

namespace Bytecode
open CompileError (OfOperand OfStatement)
open Verify (except_map_bind)

def Handle.substitute (replace : String → String) (handle : Handle) : Handle :=
  { handle with
    owner := replace handle.owner
    name := replace handle.name
    descriptor := replace handle.descriptor }

def Constant.substitute (replace : String → String) : Constant → Constant
  | .type name => .type (replace name)
  | .methodType descriptor => .methodType (replace descriptor)
  | .handle target => .handle (target.substitute replace)
  | other => other

/-- The operation with every identifier among its operands replaced, a call site's own name by
`site`. -/
def Operation.substitute (replace site : String → String) : Operation → Operation
  | .variable opcode name => .variable opcode (replace name)
  | .increment name amount => .increment (replace name) amount
  | .jump opcode target => .jump opcode (replace target)
  | .constant value => .constant (value.substitute replace)
  | .type opcode name => .type opcode (replace name)
  | .field opcode owner name descriptor => .field opcode (replace owner) (replace name) (replace descriptor)
  | .method opcode owner name descriptor onInterface =>
    .method opcode (replace owner) (replace name) (replace descriptor) onInterface
  | .callSite name descriptor bootstrap arguments =>
    .callSite (site name) (replace descriptor) (bootstrap.substitute replace)
      (arguments.map (Constant.substitute replace))
  | .tableSwitch least most fallback targets =>
    .tableSwitch least most (replace fallback) (targets.map replace)
  | .lookupSwitch fallback keys targets => .lookupSwitch (replace fallback) keys (targets.map replace)
  | .newArrays descriptor dimensions => .newArrays (replace descriptor) dimensions
  | .line start number => .line (replace start) number
  | other => other

def Parameter.substitute (replace : String → String) (parameter : Parameter) : Parameter :=
  { parameter with descriptor := replace parameter.descriptor }

def Definition.substitute (replace : String → String) (definition : Definition) : Definition :=
  { definition with
    parameters := definition.parameters.map (Parameter.substitute replace)
    result := replace definition.result }

def TryCatch.substitute (replace : String → String) (range : TryCatch) : TryCatch where
  start := replace range.start
  stop := replace range.stop
  handler := replace range.handler
  caught := range.caught.map replace

/-- The statement with its identifiers replaced; aliases have served. -/
def Statement.substitute? (replace site : String → String) : Statement → Option Statement
  | .definition header => some (.definition (header.substitute replace))
  | .label name => some (.label name)
  | .operation body => some (.operation (body.substitute replace site))
  | .tryCatch range => some (.tryCatch (range.substitute replace))
  | .alias _ _ => none
  | .throws name => some (.throws (replace name))
  | .signature text => some (.signature text)

def Entry.substitute? (replace site : String → String) (entry : Entry) : Option Entry :=
  (entry.statement.substitute? replace site).map (Entry.mk entry.line)

/-- The listing with its aliases written out, and `site` applied to the names of call sites. -/
def Listing.expandWith (listing : Listing) (site : String → String) : Listing :=
  ⟨listing.entries.filterMap (Entry.substitute? (Aliases.ofListing listing).resolve site)⟩

/-- The listing with its aliases written out. -/
def Listing.expand (listing : Listing) : Listing :=
  listing.expandWith (Aliases.ofListing listing).resolve

def ReadListing.expand (source : ReadListing) : ReadListing :=
  ⟨source.listing.expand, source.problems⟩

section
variable {listing : Listing} {site : String → String}

/-- What is selected from the expanded listing is what was selected, replaced. -/
theorem Listing.select_expandWith {α : Type} {choose : Statement → Option α} (replace : α → α)
    (same : ∀ statement : Statement,
      (statement.substitute? (Aliases.ofListing listing).resolve site).bind choose =
        (choose statement).map replace) :
    (listing.expandWith site).select choose = (listing.select choose).map (Prod.map id replace) := by
  simp only [select, expandWith, List.filterMap_filterMap, List.map_filterMap]
  apply List.filterMap_congr
  intro entry _
  have chosen := same entry.statement
  unfold Entry.substitute?
  cases replaced : entry.statement.substitute? (Aliases.ofListing listing).resolve site with
  | none =>
    rw [replaced] at chosen
    cases here : choose entry.statement with
    | none => rfl
    | some value =>
      rw [here] at chosen
      cases chosen
  | some statement =>
    rw [replaced] at chosen
    have found : choose statement = (choose entry.statement).map replace := chosen
    simp [found, Function.comp_def]

theorem Aliases.ofListing_expandWith : Aliases.ofListing (listing.expandWith site) = .empty := by
  have none_left : (listing.expandWith site).aliases = [] := by
    apply List.filterMap_eq_nil_iff.mpr
    intro entry listed
    obtain ⟨old, _, replaced⟩ := List.mem_filterMap.mp listed
    obtain ⟨statement, found, rfl⟩ := Option.map_eq_some_iff.mp replaced
    cases written : old.statement <;> rw [written] at found <;> cases found <;> rfl
  rw [ofListing, none_left]
  rfl

theorem Listing.definition?_expandWith : (listing.expandWith site).definition? =
    listing.definition?.map (Prod.map id (Definition.substitute (Aliases.ofListing listing).resolve)) := by
  rw [definition?, select_expandWith (Definition.substitute (Aliases.ofListing listing).resolve),
    List.head?_map]
  · rfl
  · intro statement
    cases statement <;> rfl

theorem Listing.labels_expandWith : (listing.expandWith site).labels = listing.labels := by
  rw [labels, select_expandWith id, Prod.map_id, List.map_id]
  · rfl
  · intro statement
    cases statement <;> rfl

theorem Listing.signature?_expandWith : (listing.expandWith site).signature? = listing.signature? := by
  rw [signature?, select_expandWith id, Prod.map_id, List.map_id]
  · rfl
  · intro statement
    cases statement <;> rfl

theorem Listing.throws_expandWith : (listing.expandWith site).throws =
    listing.throws.map (Prod.map id (Aliases.ofListing listing).resolve) := by
  apply select_expandWith
  intro statement
  cases statement <;> rfl

theorem Listing.tryCatches_expandWith : (listing.expandWith site).tryCatches =
    listing.tryCatches.map (Prod.map id (TryCatch.substitute (Aliases.ofListing listing).resolve)) := by
  apply select_expandWith
  intro statement
  cases statement <;> rfl

theorem Listing.operations_expandWith : (listing.expandWith site).operations =
    listing.operations.map
      (Prod.map id (Operation.substitute (Aliases.ofListing listing).resolve site)) := by
  apply select_expandWith
  intro statement
  cases statement <;> rfl

theorem LabelTable.ofListing_expandWith :
    LabelTable.ofListing (listing.expandWith site) = .ofListing listing := by
  rw [ofListing, Listing.labels_expandWith]
  rfl

theorem Header.ofListing_expandWith : Header.ofListing (listing.expandWith site) .empty =
    Header.ofListing listing (.ofListing listing) := by
  unfold Header.ofListing
  rw [Listing.definition?_expandWith, Listing.signature?_expandWith, Listing.throws_expandWith]
  cases listing.definition? with
  | none => rfl
  | some found =>
    obtain ⟨line, definition⟩ := found
    simp only [Option.map_some, Prod.map, id, Definition.substitute, List.map_map]
    rfl

theorem ExceptionRange.ofListing_expandWith (labels : LabelTable) :
    ExceptionRange.ofListing (listing.expandWith site) labels .empty =
      ExceptionRange.ofListing listing labels (.ofListing listing) := by
  unfold ExceptionRange.ofListing
  rw [Listing.tryCatches_expandWith, List.mapM_map]
  congr 1
  funext entry
  obtain ⟨line, range⟩ := entry
  obtain ⟨start, stop, handler, caught⟩ := range
  cases caught <;> rfl

theorem SlotUse.ofListing_expandWith : SlotUse.ofListing (listing.expandWith site) .empty =
    SlotUse.ofListing listing (.ofListing listing) := by
  unfold SlotUse.ofListing
  rw [Listing.operations_expandWith, List.filterMap_map]
  congr 1
  funext entry
  obtain ⟨line, operation⟩ := entry
  cases operation <;> rfl

end

/-- The scope without its aliases. -/
def Scope.plain (scope : Scope) : Scope := { scope with aliases := .empty }

theorem Operation.compile_substitute (scope : Scope) (site : String → String) (operation : Operation) :
    (operation.substitute scope.resolve site).compile scope.plain =
      (operation.compile scope).map (Instruction.renameCallSite site) := by
  have constants (value : Constant) : scope.plain.constant (value.substitute scope.resolve) = scope.constant value := by
    cases value <;> rfl
  cases operation with
  | int opcode operand =>
    simp only [compile, substitute, except_map_bind]
    congr 1
    funext _
    split <;> rfl
  | increment name amount =>
    simp only [compile, substitute, except_map_bind]
    congr 1
    funext _
    split
    · rw [except_map_bind]
      rfl
    · rfl
  | constant value =>
    simp only [compile, substitute, except_map_bind, constants]
    rfl
  | callSite name descriptor bootstrap arguments =>
    simp only [compile, substitute, except_map_bind, List.mapM_map, Function.comp_def, constants]
    rfl
  | tableSwitch | lookupSwitch =>
    simp only [compile, substitute, except_map_bind, List.mapM_map, List.length_map]
    congr 1
    funext _
    split
    · rfl
    · split
      · rfl
      · simp only [except_map_bind]
        rfl
  | newArrays descriptor dimensions =>
    simp only [compile, substitute, except_map_bind]
    congr 1
    funext _
    congr 1
    funext _
    split <;> rfl
  | _ =>
    simp only [compile, except_map_bind]
    rfl

theorem CompileError.OfOperand.renamed {line : Nat} {failure : CompileError} (about : OfOperand line failure)
    (site : String → String) : failure.renameCallSite site = failure := by
  cases about <;> rfl

theorem CompileError.OfStatement.renamed {failure : CompileError} (about : OfStatement failure)
    (site : String → String) : failure.renameCallSite site = failure := by
  cases about with
  | missing => rfl
  | operand about => exact about.renamed site

/-- Two computations fail alike but for the name of a call site, or succeed with related results. -/
inductive Matches {α β : Type} (site : String → String) (relation : α → β → Prop) :
    Except CompileError α → Except CompileError β → Prop where
  | error (failure : CompileError) :
    Matches site relation (.error failure) (.error (failure.renameCallSite site))
  | ok {value : α} {other : β} (related : relation value other) :
    Matches site relation (.ok value) (.ok other)

namespace Matches
variable {α β γ δ : Type} {site : String → String} {after : γ → δ → Prop}

theorem bind (relation : α → β → Prop) {first : Except CompileError α} {second : Except CompileError β}
    {next : α → Except CompileError γ} {last : β → Except CompileError δ}
    (same : Matches site relation first second)
    (step : ∀ value other, relation value other → Matches site after (next value) (last other)) :
    Matches site after (first >>= next) (second >>= last) := by
  cases same with
  | error failure => exact .error failure
  | ok related => exact step _ _ related

/-- An error that shows no call site is the same for both. -/
theorem error_of_renamed {relation : α → β → Prop} {failure : CompileError}
    (renamed : failure.renameCallSite site = failure) :
    Matches site relation (.error failure) (.error failure) := by
  have same : Matches site relation (.error failure) (.error (failure.renameCallSite site)) := .error failure
  rwa [renamed] at same

/-- What both start with fails without a call site. -/
theorem bind_left {first : Except CompileError α} {next : α → Except CompileError γ}
    {last : α → Except CompileError δ} (raises : Raises OfStatement first)
    (step : ∀ value, Matches site after (next value) (last value)) :
    Matches site after (first >>= next) (first >>= last) := by
  cases first with
  | error failure => exact error_of_renamed ((raises failure rfl).renamed site)
  | ok value => exact step value

theorem of_map {first : Except CompileError α} {f : α → β} {line : Nat}
    (raises : Raises (OfOperand line) first) :
    Matches site (fun value other => other = f value) first (first.map f) := by
  cases first with
  | error failure => exact error_of_renamed ((raises failure rfl).renamed site)
  | ok value => exact .ok rfl

end Matches

namespace Emission

/-- The same code but for the names of call sites, and from the same lines. -/
structure Expands (site : String → String) (before after : Emission) : Prop where
  instructions : after.instructions = before.instructions.map (Instruction.renameCallSite site)
  lines : after.origins.entries.map (·.line) = before.origins.entries.map (·.line)
  placed : after.placed = before.placed

variable {site : String → String} {before after : Emission} {tables : Tables}

theorem Expands.push (expands : Expands site before after) (index other line : Nat)
    (instruction : Instruction) : Expands site (before.push index line instruction)
      (after.push other line (instruction.renameCallSite site)) := by
  refine ⟨?_, ?_, expands.placed⟩
  · simp [Emission.push, expands.instructions]
  · simp [Emission.push, expands.lines]

theorem Expands.place (expands : Expands site before after) (index other line : Nat) (name : String) :
    Matches site (Expands site) (before.place tables index line name)
      (after.place { tables with aliases := .empty } other line name) := by
  unfold Emission.place
  simp only [expands.placed]
  split
  next => exact .error (.unresolvedLabel .operand name line)
  next label _ =>
    split
    next first _ => exact .error (.duplicateLabel name line first)
    next =>
      have pushed := expands.push index other line (.label label)
      exact .ok ⟨pushed.instructions, pushed.lines, by simp⟩

theorem Expands.operation (expands : Expands site before after) (index other line : Nat)
    (operation : Operation) : Matches site (Expands site)
      (before.step tables ⟨line, .operation operation⟩ index)
      (after.step { tables with aliases := .empty }
        ⟨line, .operation (operation.substitute tables.aliases.resolve site)⟩ other) := by
  have compiled := operation.compile_substitute (tables.scope line) site
  apply Matches.bind fun value other => other = value.renameCallSite site
  · exact compiled ▸ Matches.of_map (operation.compile_raises _)
  · intro instruction renamed same
    rw [same]
    exact .ok (expands.push index other line instruction)

/-- Statement by statement the expanded listing emits the same code. -/
theorem Expands.fold (expands : Expands site before after) (entries : List Entry)
    (index other : Nat) : Matches site (Expands site)
      ((entries.zipIdx index).foldlM (fun emission (entry, index) => emission.step tables entry index) before)
      (((entries.filterMap (Entry.substitute? tables.aliases.resolve site)).zipIdx other).foldlM
        (fun emission (entry, index) => emission.step { tables with aliases := .empty } entry index)
        after) := by
  induction entries generalizing index other before after with
  | nil => exact .ok expands
  | cons entry rest ih =>
    obtain ⟨line, statement⟩ := entry
    have go (first : Except CompileError Emission) (second : Except CompileError Emission)
        (same : Matches site (Expands site) first second) :=
      same.bind _ fun _ _ expands => ih expands (index + 1) (other + 1)
    cases statement with
    | label name => exact go _ _ (expands.place index other line name)
    | operation operation => exact go _ _ (expands.operation index other line operation)
    | «alias» => exact ih expands (index + 1) other
    | definition | tryCatch | throws | signature => exact go _ _ (.ok expands)

theorem ofListing_expandWith (labels : LabelTable) (slots : SlotTable) (listing : Listing)
    (site : String → String) : Matches site (Expands site)
      (ofListing ⟨labels, slots, .ofListing listing⟩ listing)
      (ofListing ⟨labels, slots, .empty⟩ (listing.expandWith site)) := by
  have start : Expands site empty empty := ⟨by simp [empty], rfl, rfl⟩
  exact start.fold listing.entries 0 0

end Emission

/-- No alias stands for the name of a call site. -/
def Listing.KeepsCallSites (listing : Listing) : Prop :=
  ∀ line name descriptor bootstrap arguments,
    (line, .callSite name descriptor bootstrap arguments) ∈ listing.operations →
      (Aliases.ofListing listing).resolve name = name

theorem Listing.KeepsCallSites.expand_eq {listing : Listing} (keeps : listing.KeepsCallSites) :
    listing.expand = listing.expandWith id := by
  unfold expand expandWith
  congr 1
  apply List.filterMap_congr
  intro entry listed
  obtain ⟨line, statement⟩ := entry
  cases statement with
  | operation operation =>
    cases operation with
    | callSite name descriptor bootstrap arguments =>
      have kept := keeps line name descriptor bootstrap arguments
        (List.mem_filterMap.mpr ⟨_, listed, rfl⟩)
      simp [Entry.substitute?, Statement.substitute?, Operation.substitute, kept]
    | _ => rfl
  | _ => rfl

/-- What a caller sees of an assembly: a method with its frames, or an error. -/
abbrev Outcome := Except CompileError (Method × Option (Array (Option Verify.Frame)))

def Assembler.outcome (assembler : Assembler) (source : ReadListing) : Outcome :=
  (assembler.compile source).map fun assembly => (assembly.method, assembly.frames)

namespace Outcome

/-- The outcome with the names of call sites replaced. -/
def renameCallSites (site : String → String) : Outcome → Outcome
  | .ok (method, frames) => .ok (method.renameCallSites site, frames)
  | .error failure => .error (failure.renameCallSite site)

/-- The names of the call sites that an outcome shows: in the code, or where a rule is broken. -/
def callSites : Outcome → List String
  | .ok (method, _) => method.instructions.toList.filterMap Instruction.callSite?
  | .error (.verification _ _ (some broken) _) => broken.callSite?.toList
  | .error _ => []

variable {site : String → String}

theorem renameCallSites_ok_iff {method : Method} {frames : Option (Array (Option Verify.Frame))} :
    renameCallSites site (.ok (method, frames)) = .ok (method, frames) ↔
      ∀ name ∈ callSites (.ok (method, frames)), site name = name := by
  constructor
  · intro same name listed
    obtain ⟨instruction, there, called⟩ := List.mem_filterMap.mp listed
    injection same with same
    have fixed : method.instructions.map (Instruction.renameCallSite site) = method.instructions.map id := by
      rw [Array.map_id]
      exact congrArg (fun pair => pair.1.instructions) same
    have kept := Array.map_inj_left.mp fixed instruction (Array.mem_toList_iff.mp there)
    exact Instruction.renameCallSite_eq_iff.mp kept name called
  · intro kept
    have fixed : method.instructions.map (Instruction.renameCallSite site) = method.instructions.map id := by
      apply Array.map_inj_left.mpr
      intro instruction there
      apply Instruction.renameCallSite_eq_iff.mpr
      intro name called
      exact kept name (List.mem_filterMap.mpr ⟨instruction, Array.mem_toList_iff.mpr there, called⟩)
    rw [Array.map_id] at fixed
    simp only [renameCallSites, Method.renameCallSites, fixed]

/-- Replacing the names of call sites changes an outcome unless those that it shows stay. -/
theorem renameCallSites_eq_iff {outcome : Outcome} :
    outcome.renameCallSites site = outcome ↔ ∀ name ∈ outcome.callSites, site name = name := by
  cases outcome with
  | ok result => exact renameCallSites_ok_iff
  | error failure =>
    cases failure with
    | verification index line broken violation =>
      cases broken with
      | none => simp [renameCallSites, CompileError.renameCallSite, callSites]
      | some instruction =>
        simp [renameCallSites, CompileError.renameCallSite, callSites, Instruction.renameCallSite_eq_iff]
    | _ => simp [renameCallSites, CompileError.renameCallSite, callSites]

end Outcome

namespace Assembler
variable {assembler : Assembler} {listing : Listing} {header : Header} {site : String → String}

theorem rejected_renameCallSites {method : Method} {origins others : Origins}
    (lines : others.entries.map (·.line) = origins.entries.map (·.line)) (rejection : Verify.Rejection) :
    rejected (method.renameCallSites site) others rejection =
      (rejected method origins rejection).renameCallSite site := by
  have same : others.lineOf? rejection.index = origins.lineOf? rejection.index := by
    have entries := congrArg (fun lines => lines[rejection.index]?) lines
    simpa [Origins.lineOf?] using entries
  simp [rejected, same, Method.renameCallSites, CompileError.renameCallSite]

theorem verify_renameCallSites {method : Method} {tables : Tables} {origins others : Origins}
    (lines : others.entries.map (·.line) = origins.entries.map (·.line)) :
    Matches site (fun value other => other.1 = value.1 ∧ other.2.slots = value.2.slots)
      (assembler.verify method tables origins)
      (assembler.verify (method.renameCallSites site) { tables with aliases := .empty } others) := by
  unfold verify
  rw [Verify.Verifier.analyze_renameCallSites]
  cases assembler.verifier.analyze method with
  | error rejection =>
    simp only [Except.mapError, rejected_renameCallSites lines]
    exact .error _
  | ok frames => exact .ok ⟨rfl, rfl⟩

/-- The same assembly but for the names of call sites. -/
structure Renames (site : String → String) (value other : Assembly) : Prop where
  method : other.method = value.method.renameCallSites site
  frames : other.frames = value.frames

theorem Renames.outcome {first second : Except CompileError Assembly}
    (matched : Matches site (Renames site) first second) :
    (second.map fun assembly => (assembly.method, assembly.frames) : Outcome) =
      Outcome.renameCallSites site (first.map fun assembly => (assembly.method, assembly.frames)) := by
  cases matched with
  | error failure => rfl
  | ok renames => simp only [Except.map, Outcome.renameCallSites, renames.method, renames.frames]

theorem compileCode_expandWith : Matches site (Renames site)
    (assembler.compileCode listing (.ofListing listing) header)
    (assembler.compileCode (listing.expandWith site) .empty header) := by
  unfold compileCode
  simp only [LabelTable.ofListing_expandWith, ExceptionRange.ofListing_expandWith,
    SlotUse.ofListing_expandWith]
  apply Matches.bind_left (ExceptionRange.ofListing_raises _ _ _)
  intro ranges
  apply Matches.bind_left (SlotTable.allocate_raises _ _)
  intro _
  apply Matches.bind (Emission.Expands site) (Emission.ofListing_expandWith ..)
  intro emission other expands
  rw [expands.instructions]
  split
  next =>
    apply Matches.bind _ (verify_renameCallSites expands.lines)
    intro value other same
    obtain ⟨frames, slots⟩ := same
    refine .ok ⟨?_, congrArg some frames⟩
    simp only [slots, SlotTable.localVariables_renameCallSites]
    rfl
  next =>
    refine .ok ⟨?_, rfl⟩
    simp only [SlotTable.localVariables_renameCallSites]
    rfl

theorem compile_expandWith (source : ReadListing) : Matches site (Renames site) (assembler.compile source)
    (assembler.compile ⟨source.listing.expandWith site, source.problems⟩) := by
  obtain ⟨listing, problems⟩ := source
  unfold compile
  cases problems with
  | cons first rest => exact .error (CompileError.problems first rest)
  | nil =>
    simp only [Aliases.ofListing_expandWith, Header.ofListing_expandWith]
    apply Matches.bind_left (Header.ofListing_raises _ _)
    intro header
    split
    next =>
      refine .ok ⟨?_, rfl⟩
      simp [Method.renameCallSites, Method.ofHeader]
    next => exact compileCode_expandWith

/-- Writing the aliases out replaces the names of call sites in the outcome, and nothing else. -/
theorem outcome_expandWith (source : ReadListing) (site : String → String) :
    assembler.outcome ⟨source.listing.expandWith site, source.problems⟩ =
      (assembler.outcome source).renameCallSites site :=
  Renames.outcome (compile_expandWith source)

/-- The outcome of a listing is that of the expanded one but for the names of call sites, which are
left as they are written. So the two are the same just if no alias stands for such a name that the
outcome shows, and thus if none stands for one of the listing. -/
theorem outcome_expand (assembler : Assembler) (source : ReadListing) :
    assembler.outcome source.expand =
        (assembler.outcome source).renameCallSites (Aliases.ofListing source.listing).resolve ∧
      (assembler.outcome source.expand = assembler.outcome source ↔
        ∀ name ∈ (assembler.outcome source).callSites, (Aliases.ofListing source.listing).resolve name = name) ∧
      (source.listing.KeepsCallSites → assembler.outcome source.expand = assembler.outcome source) := by
  have renamed : assembler.outcome source.expand =
      (assembler.outcome source).renameCallSites (Aliases.ofListing source.listing).resolve :=
    outcome_expandWith source _
  refine ⟨renamed, ?_, ?_⟩
  · rw [renamed]
    exact Outcome.renameCallSites_eq_iff
  · intro keeps
    rw [ReadListing.expand, keeps.expand_eq, outcome_expandWith]
    exact Outcome.renameCallSites_eq_iff.mpr fun _ _ => rfl

/-- Links a call site, with aliases for its descriptor and for one name. -/
def linking (name : String) : ReadListing :=
  ⟨⟨[⟨1, .alias "make" "apply"⟩, ⟨2, .alias "task" "()V"⟩,
    ⟨3, .definition ⟨[.accStatic], "link", [], "V"⟩⟩,
    ⟨4, .operation (.callSite name "task" ⟨6, "Boot", "start", "task", false⟩ [])⟩,
    ⟨5, .operation (.simple .returnVoid)⟩]⟩, []⟩

def linker : Assembler := ⟨"Main", {}, []⟩

theorem linking_keeps : (linking "run").listing.KeepsCallSites := by
  have operations : (linking "run").listing.operations =
    [(4, .callSite "run" "task" ⟨6, "Boot", "start", "task", false⟩ []), (5, .simple .returnVoid)] := rfl
  intro line name descriptor bootstrap arguments listed
  rw [operations] at listed
  rcases List.mem_pair.mp listed with same | same <;> cases same
  rfl

theorem outcome_expand_linking : (linker.outcome (linking "run")).callSites = ["run"] ∧
    (linking "run").listing.KeepsCallSites ∧
    linker.outcome (linking "run").expand =
      (linker.outcome (linking "run")).renameCallSites (Aliases.ofListing (linking "run").listing).resolve ∧
    (linker.outcome (linking "run").expand = linker.outcome (linking "run") ↔
      ∀ name ∈ (linker.outcome (linking "run")).callSites,
        (Aliases.ofListing (linking "run").listing).resolve name = name) ∧
    linker.outcome (linking "run").expand = linker.outcome (linking "run") := by
  obtain ⟨renamed, exactly, kept⟩ := outcome_expand linker (linking "run")
  exact ⟨by decide +kernel, linking_keeps, renamed, exactly, kept linking_keeps⟩

/-- A call site keeps the name that an alias stands for. -/
theorem expand_links_otherwise : linker.outcome (linking "make").expand ≠ linker.outcome (linking "make") := by
  decide +kernel

end Assembler
end Bytecode
