import Bytecode.Proofs.FirstFit

/-! Slot numbers never leave their range. Every operation on a table of slots is written a second time, with sums
that fail instead of wrapping around and with runs of slots that fail instead of being cut short by the limit.
None of them ever fails, so that the operations themselves neither wrap around nor cut anything short. -/

namespace Bytecode

/-- The sum of two slot numbers, if it is a slot number itself. -/
def sum? (first second : UInt16) : Option UInt16 :=
  if first.toNat + second.toNat < UInt16.size then some (first + second) else none

theorem sum?_eq_some_iff {first second sum : UInt16} :
    sum? first second = some sum ↔ sum.toNat = first.toNat + second.toNat := by
  unfold sum?
  split
  next inside =>
    rw [Option.some.injEq, ← UInt16.toNat_inj, UInt16.toNat_add, Nat.mod_eq_of_lt inside]
    exact eq_comm
  next outside =>
    have bound := sum.toNat_lt
    constructor
    · exact nofun
    · intro equal
      simp only [UInt16.size] at outside
      omega

example : sum? 65534 2 = none := rfl

theorem sum?_of_fits {index width : UInt16} (fits : fitsSlots index width = true) :
    sum? index width = some (index + width) :=
  sum?_eq_some_iff.mpr (SlotTable.next_toNat fits)

namespace SlotTable
namespace Checked

/-- Reserves a run that the limit does not cut short. -/
def reserve (table : SlotTable) (index width : UInt16) : Option SlotTable :=
  if index.toNat + width.toNat ≤ slotLimit then some (table.reserve index width) else none

def insert (table : SlotTable) (entry : Variable) : Option SlotTable := do
  let table ← reserve table entry.index entry.width
  return { table with
    entries := table.entries.push entry
    byName := table.byName.insert entry.name entry }

def ofMethod (isStatic : Bool) (declaringType : String) : Option SlotTable :=
  let table : SlotTable := ⟨isStatic, #[], {}, {}, 0, {}⟩
  if isStatic then some table
  else insert table ⟨"this", 0, 1, some (nameDescriptor declaringType)⟩

def addKnown (table : SlotTable) (known : BaselineVariable) : Option SlotTable :=
  let width := descriptorWidth known.descriptor
  if !fitsSlots known.index width then some table
  else if table.contains known.name || table.occupied.contains known.index then some table
  else insert table ⟨known.name, known.index, width, some known.descriptor⟩

def addBaseline (table : SlotTable) (baseline : List BaselineVariable) : Option SlotTable :=
  baseline.foldlM addKnown table

def addParametersFrom (table : SlotTable) (next : UInt16) : List Parameter → Option SlotTable
  | [] => some table
  | parameter :: rest =>
    let width := descriptorWidth parameter.descriptor
    if !fitsSlots next width then some table
    else do
      let table ←
        if table.contains parameter.name then reserve table next width
        else insert table ⟨parameter.name, next, width, some parameter.descriptor⟩
      let next ← sum? next width
      addParametersFrom table next rest

def addParameters (table : SlotTable) (parameters : List Parameter) : Option SlotTable :=
  addParametersFrom table (if table.isStatic then 0 else 1) parameters

def isFree (table : SlotTable) (index width : UInt16) : Option Bool := do
  let stop ← sum? index width
  return (List.range' index.toNat (stop.toNat - index.toNat)).all fun slot =>
    !table.occupied.contains (UInt16.ofNat slot)

/-- Looks for a free run among these slots. A run that does not fit is never added up. -/
def findFree (table : SlotTable) (width : UInt16) (slots : List UInt16) : Option (Option UInt16) :=
  slots.findM? fun slot => if fitsSlots slot width then isFree table slot width else some false

def lowestFree (table : SlotTable) (width : UInt16) : Option (Option UInt16) :=
  findFree table width ((List.range 65536).map UInt16.ofNat)

def place (table : SlotTable) : List DeclaredName → Option (SlotTable × Except CompileError Unit)
  | [] => some (table, .ok ())
  | declared :: rest => do
    match ← lowestFree table declared.width with
    | some slot =>
      let table ← insert table ⟨declared.name, slot, declared.width, none⟩
      place table rest
    | none => return (table, .error (.invalidOperand declared.line (.noFreeSlot declared.name)))

def reserveAll (table : SlotTable) (numbered : List (SlotUse × UInt16)) : Option SlotTable :=
  numbered.foldlM (fun table pair => reserve table pair.2 pair.1.width) table

def allocate (table : SlotTable) (uses : List SlotUse) : Option (SlotTable × Except CompileError Unit) := do
  let numbered := SlotUse.numbered uses
  let reserved ← reserveAll table (numbered.takeWhile fun pair => fitsSlots pair.2 pair.1.width)
  match numbered.find? fun pair => !fitsSlots pair.2 pair.1.width with
  | some (use, slot) =>
    return (reserved, .error (.invalidOperand use.line (.slotOutOfRange slot use.width)))
  | none => place reserved (table.newNames uses)

variable {table : SlotTable} {index width : UInt16}

theorem reserve_eq (fits : fitsSlots index width = true) :
    reserve table index width = some (table.reserve index width) :=
  if_pos (fitsSlots_iff.mp fits)

example (table : SlotTable) : reserve table 65534 2 = none := if_neg (by decide)

theorem insert_eq {entry : Variable} (fits : fitsSlots entry.index entry.width = true) :
    insert table entry = some (table.insert entry) := by
  unfold insert
  rw [reserve_eq fits]
  rfl

theorem ofMethod_eq (isStatic : Bool) (declaringType : String) :
    ofMethod isStatic declaringType = some (SlotTable.ofMethod isStatic declaringType) := by
  cases isStatic with
  | true => rfl
  | false => exact insert_eq rfl

theorem addKnown_eq (table : SlotTable) (known : BaselineVariable) :
    addKnown table known = some (table.addKnown known) := by
  unfold addKnown SlotTable.addKnown
  extract_lets width
  split
  next => rfl
  next fits =>
    split
    next => rfl
    next => exact insert_eq (by simpa using fits)

theorem addBaseline_eq (table : SlotTable) (baseline : List BaselineVariable) :
    addBaseline table baseline = some (table.addBaseline baseline) := by
  unfold addBaseline
  rw [funext₂ addKnown_eq]
  exact List.foldlM_pure

theorem addParametersFrom_eq (table : SlotTable) (next : UInt16) (parameters : List Parameter) :
    addParametersFrom table next parameters = some (table.addParametersFrom next parameters) := by
  induction parameters generalizing table next with
  | nil => rfl
  | cons parameter rest ih =>
    rw [addParametersFrom, SlotTable.addParametersFrom]
    split
    next => rfl
    next fits =>
      have fits : fitsSlots next (descriptorWidth parameter.descriptor) = true := by simpa using fits
      rw [sum?_of_fits fits]
      split
      next =>
        rw [reserve_eq fits]
        exact ih _ _
      next =>
        rw [insert_eq fits]
        exact ih _ _

theorem isFree_eq (fits : fitsSlots index width = true) :
    isFree table index width = some (table.isFree index width) := by
  have size : (index + width).toNat - index.toNat = width.toNat := by
    have sum := next_toNat fits
    omega
  unfold isFree
  rw [sum?_of_fits fits]
  simp only [Option.bind_eq_bind, Option.bind_some, size]
  rfl

theorem findFree_eq (slots : List UInt16) : findFree table width slots =
    some (slots.find? fun slot => fitsSlots slot width && table.isFree slot width) := by
  have checks : (fun slot => if fitsSlots slot width then isFree table slot width else some false) =
      fun slot => some (fitsSlots slot width && table.isFree slot width) := by
    funext slot
    split
    next fits =>
      rw [isFree_eq fits, fits]
      rfl
    next unfit => simp [unfit]
  unfold findFree
  rw [checks]
  exact List.findM?_pure _ _

theorem lowestFree_eq (table : SlotTable) (width : UInt16) :
    lowestFree table width = some (table.lowestFree? width) := by
  unfold lowestFree lowestFree?
  exact findFree_eq _

theorem place_eq (table : SlotTable) (names : List DeclaredName) :
    place table names = some (table.place names) := by
  induction names generalizing table with
  | nil => rfl
  | cons name rest ih =>
    rw [place, place_cons, lowestFree_eq]
    cases found : table.lowestFree? name.width with
    | none => rfl
    | some slot =>
      have fits := (lowestFree?_some found).1
      simp only [Option.bind_eq_bind, Option.bind_some]
      rw [insert_eq fits]
      exact ih _

theorem reserveAll_eq {numbered : List (SlotUse × UInt16)}
    (fits : ∀ pair ∈ numbered, fitsSlots pair.2 pair.1.width = true) :
    reserveAll table numbered = some (table.reserveAll numbered) := by
  induction numbered generalizing table with
  | nil => rfl
  | cons pair rest ih =>
    obtain ⟨here, later⟩ := List.forall_mem_cons.mp fits
    rw [reserveAll, List.foldlM_cons, reserve_eq here]
    exact ih later

theorem allocate_eq (table : SlotTable) (uses : List SlotUse) :
    allocate table uses = some (table.allocate uses) := by
  have made : table.allocate uses =
      match (SlotUse.numbered uses).find? fun pair => !fitsSlots pair.2 pair.1.width with
      | some (use, slot) => (table.reserveAll
          ((SlotUse.numbered uses).takeWhile fun pair => fitsSlots pair.2 pair.1.width),
          .error (.invalidOperand use.line (.slotOutOfRange slot use.width)))
      | none => (table.reserveAll
          ((SlotUse.numbered uses).takeWhile fun pair => fitsSlots pair.2 pair.1.width)).place (table.newNames uses) :=
    rfl
  have fits := List.all_eq_true.mp (@List.all_takeWhile _ (fun pair => fitsSlots pair.2 pair.1.width)
    (SlotUse.numbered uses))
  unfold allocate
  simp only [made, reserveAll_eq fits, Option.bind_eq_bind, Option.bind_some]
  cases (SlotUse.numbered uses).find? fun pair => !fitsSlots pair.2 pair.1.width with
  | some overrun => rfl
  | none => exact place_eq _ _

end Checked
end SlotTable
end Bytecode
