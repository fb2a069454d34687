import Mathlib.Data.List.Induction
import Mathlib.Order.Bounds.Basic
import Bytecode.Proofs.RangeBounds
import Bytecode.Proofs.SlotRanges

/-! Which slots new names are given: one after another, in the order of their first stores, each takes the
lowest run that is free of all that is registered or used by number, wherever in the code that is, and of
the names before it. -/

namespace Bytecode
open List

/-- The run of slots ends below the limit, and none of it is taken. -/
def FreeRun (taken : Nat → Prop) (width slot : Nat) : Prop :=
  slot + width ≤ slotLimit ∧ ∀ other, slot ≤ other → other < slot + width → ¬ taken other

/-- Names take slots one after another, each the lowest run that is free of what was taken before it. -/
inductive FirstFit : (Nat → Prop) → List DeclaredName → List Variable → Prop where
  | nil {taken} : FirstFit taken [] []
  | cons {taken name slot rest placed} (lowest : IsLeast {first | FreeRun taken name.width.toNat first} slot.toNat)
      (later : FirstFit (fun other => taken other ∨ Variable.Covers ⟨name.name, slot, name.width, none⟩ other)
        rest placed) :
      FirstFit taken (name :: rest) (⟨name.name, slot, name.width, none⟩ :: placed)

/-- When the names before it have taken theirs, there is no free run for some name. -/
def Exhausts (taken : Nat → Prop) (names : List DeclaredName) : Prop :=
  ∃ before name after placed, names = before ++ name :: after ∧ FirstFit taken before placed ∧
    ∀ slot, ¬ FreeRun (fun other => taken other ∨ ∃ entry ∈ placed, entry.Covers other) name.width.toNat slot

namespace FirstFit
variable {taken : Nat → Prop} {names before after : List DeclaredName} {placed other : List Variable}

theorem unique (fit : FirstFit taken names placed) (also : FirstFit taken names other) : placed = other := by
  induction fit generalizing other with
  | nil =>
    cases also
    rfl
  | cons lowest later ih =>
    cases also with
    | cons again next =>
      obtain rfl := UInt16.toNat_inj.mp (lowest.unique again)
      rw [ih next]

theorem append_inv (fit : FirstFit taken (before ++ after) placed) : ∃ first second,
    placed = first ++ second ∧ FirstFit taken before first ∧
      FirstFit (fun other => taken other ∨ ∃ entry ∈ first, entry.Covers other) after second := by
  induction before generalizing taken placed with
  | nil => exact ⟨[], placed, rfl, .nil, by simpa using fit⟩
  | cons name rest ih =>
    cases fit with
    | cons lowest later =>
      obtain ⟨first, second, rfl, front, back⟩ := ih later
      refine ⟨_ :: first, second, rfl, .cons lowest front, ?_⟩
      simpa only [or_assoc, List.mem_cons, exists_eq_or_imp] using back

theorem not_exhausts (fit : FirstFit taken names placed) : ¬ Exhausts taken names := by
  rintro ⟨before, name, after, earlier, rfl, also, none⟩
  obtain ⟨first, second, rfl, front, back⟩ := fit.append_inv
  obtain rfl := also.unique front
  cases back with
  | cons lowest => exact none _ lowest.1

/-- What is given is free of all that was taken before, and apart from each other. -/
theorem apart (fit : FirstFit taken names placed) :
    (∀ entry ∈ placed, ∀ slot, entry.Covers slot → ¬ taken slot) ∧ placed.Pairwise Variable.Disjoint := by
  induction fit with
  | nil => exact ⟨nofun, .nil⟩
  | @cons taken name slot rest placed lowest later ih =>
    obtain ⟨free, apart⟩ := ih
    refine ⟨?_, List.pairwise_cons.mpr ⟨?_, apart⟩⟩
    · intro entry listed slot covers
      rcases List.mem_cons.mp listed with rfl | listed
      · exact lowest.1.2 slot covers.1 covers.2
      · exact fun old => free entry listed slot covers (.inl old)
    · intro entry listed slot covers within
      exact free entry listed slot within (.inr covers)

theorem fits (fit : FirstFit taken names placed) : ∀ entry ∈ placed, fitsSlots entry.index entry.width = true := by
  induction fit with
  | nil => exact nofun
  | cons lowest _ ih => exact List.forall_mem_cons.mpr ⟨fitsSlots_iff.mpr lowest.1.1, ih⟩

theorem map_name (fit : FirstFit taken names placed) : placed.map (·.name) = names.map (·.name) := by
  induction fit with
  | nil => rfl
  | cons _ _ ih => rw [List.map_cons, List.map_cons, ih]

end FirstFit

namespace SlotTable
variable {table : SlotTable} {width : UInt16}

theorem isFree_iff {slot : UInt16} : (fitsSlots slot width && table.isFree slot width) = true ↔
    FreeRun table.Taken width.toNat slot.toNat := by
  simp only [Bool.and_eq_true, fitsSlots_iff, isFree, List.all_eq_true, List.mem_range'_1, Bool.not_eq_true']
  refine and_congr_right fun limit => forall_congr' fun other => ?_
  rw [and_imp]
  refine imp_congr_right fun _ => imp_congr_right fun inside => ?_
  have below : other < slotLimit := by omega
  simp only [Taken, below, true_and, ← Bool.not_eq_true, Std.HashSet.contains_iff_mem]

private theorem find?_free_iff {slots : List UInt16} (ordered : slots.Pairwise fun first second => first < second)
    (whole : ∀ slot, slot ∈ slots) {slot : UInt16} :
    slots.find? (fun slot => fitsSlots slot width && table.isFree slot width) = some slot ↔
      IsLeast {first | FreeRun table.Taken width.toNat first} slot.toNat := by
  rw [find?_iff ordered fun _ _ => UInt16.lt_asymm]
  simp only [whole, true_and, isFree_iff, forall_const]
  refine and_congr_right fun _ => ?_
  constructor
  · intro lowest first free
    have inside : first < 65536 := by
      have limit := free.1
      simp only [slotLimit] at limit
      omega
    have number : (UInt16.ofNat first).toNat = first := UInt16.toNat_ofNat_of_lt' inside
    have higher := lowest (UInt16.ofNat first) (by rwa [number])
    rw [UInt16.lt_iff_toNat_lt, number] at higher
    exact Nat.le_of_not_lt higher
  · intro lowest other free lower
    rw [UInt16.lt_iff_toNat_lt] at lower
    exact absurd (lowest free) (Nat.not_le_of_lt lower)

private theorem find?_free_none {slots : List UInt16} (whole : ∀ slot, slot ∈ slots) :
    slots.find? (fun slot => fitsSlots slot width && table.isFree slot width) = none ↔
      ∀ slot, ¬ FreeRun table.Taken width.toNat slot := by
  simp only [List.find?_eq_none, whole, isFree_iff, forall_const]
  refine ⟨fun none slot free => ?_, fun none slot => none _⟩
  have inside := free.1
  apply none (UInt16.ofNat slot)
  rwa [toNat_ofNat_slot (by omega)]

private theorem slots_ordered (count : Nat) (limit : count ≤ UInt16.size) :
    ((List.range count).map UInt16.ofNat).Pairwise fun first second => first < second := by
  refine List.pairwise_map.mpr (List.pairwise_lt_range.imp_of_mem ?_)
  intro first second listed also lower
  have inside := List.mem_range.mp listed
  have within := List.mem_range.mp also
  rw [UInt16.lt_iff_toNat_lt, UInt16.toNat_ofNat_of_lt' (by omega), UInt16.toNat_ofNat_of_lt' (by omega)]
  exact lower

private theorem slots_whole (count : Nat) (all : UInt16.size ≤ count) (slot : UInt16) :
    slot ∈ (List.range count).map UInt16.ofNat :=
  List.mem_map.mpr ⟨slot.toNat, List.mem_range.mpr (Nat.lt_of_lt_of_le slot.toNat_lt all), UInt16.ofNat_toNat⟩

theorem lowestFree?_eq_some_iff {slot : UInt16} : table.lowestFree? width = some slot ↔
    IsLeast {first | FreeRun table.Taken width.toNat first} slot.toNat := by
  have ordered := slots_ordered 65536 (Nat.le_refl _)
  have whole := slots_whole 65536 (Nat.le_refl _)
  unfold lowestFree?
  exact find?_free_iff ordered whole

theorem lowestFree?_eq_none_iff : table.lowestFree? width = none ↔
    ∀ slot, ¬ FreeRun table.Taken width.toNat slot := by
  have whole := slots_whole 65536 (Nat.le_refl _)
  unfold lowestFree?
  exact find?_free_none whole

/-! ### Names one by one -/

def insertAll (table : SlotTable) (entries : List Variable) : SlotTable := entries.foldl insert table

section
variable {entry : Variable} {entries : List Variable} {name : String}

theorem taken_insert (fits : fitsSlots entry.index entry.width = true) :
    (table.insert entry).Taken = fun slot => table.Taken slot ∨ entry.Covers slot :=
  funext fun _ => propext (taken_reserve fits)

theorem taken_insertAll (fits : ∀ entry ∈ entries, fitsSlots entry.index entry.width = true) :
    (table.insertAll entries).Taken = fun slot => table.Taken slot ∨ ∃ entry ∈ entries, entry.Covers slot := by
  induction entries generalizing table with
  | nil => simp [insertAll]
  | cons entry rest ih =>
    have later := @ih (table.insert entry) fun other listed => fits other (List.mem_cons_of_mem _ listed)
    rw [taken_insert (fits entry List.mem_cons_self)] at later
    refine later.trans ?_
    simp only [or_assoc, List.mem_cons, exists_eq_or_imp]

theorem entries_insertAll : (table.insertAll entries).entries.toList = table.entries.toList ++ entries := by
  induction entries generalizing table with
  | nil => simp [insertAll]
  | cons entry rest ih =>
    refine (@ih (table.insert entry)).trans ?_
    simp [insert, reserve]

theorem get?_insert : (table.insert entry).get? name = if entry.name = name then some entry else table.get? name := by
  simp [get?, insert, reserve, Std.HashMap.getElem?_insert]

theorem get?_insertAll (distinct : entries.Pairwise fun first second => first.name ≠ second.name) :
    (table.insertAll entries).get? name = (entries.find? (·.name == name)).or (table.get? name) := by
  induction entries generalizing table with
  | nil => rfl
  | cons entry rest ih =>
    obtain ⟨apart, distinct⟩ := List.pairwise_cons.mp distinct
    refine (@ih (table.insert entry) distinct).trans ?_
    rw [get?_insert]
    by_cases same : entry.name = name
    · have missing : rest.find? (·.name == name) = none := by
        refine List.find?_eq_none.mpr fun other listed also => ?_
        exact apart other listed (same.trans (eq_of_beq also).symm)
      simp [same, missing]
    · simp [same]

end

/-- Names are placed by first fit, as far as there is a free run for each. -/
theorem place_firstFit (table : SlotTable) (names : List DeclaredName) : ∃ before after placed,
    names = before ++ after ∧ FirstFit table.Taken before placed ∧ (table.place names).1 = table.insertAll placed ∧
      (after = [] ∧ (table.place names).2 = .ok () ∨ ∃ name rest, after = name :: rest ∧
        (∀ slot, ¬ FreeRun (table.insertAll placed).Taken name.width.toNat slot) ∧
        (table.place names).2 = .error (.invalidOperand name.line (.noFreeSlot name.name))) := by
  induction names generalizing table with
  | nil => exact ⟨[], [], [], rfl, .nil, rfl, .inl ⟨rfl, rfl⟩⟩
  | cons name rest ih =>
    rw [place_cons]
    cases found : table.lowestFree? name.width with
    | none =>
      refine ⟨[], name :: rest, [], rfl, .nil, rfl, .inr ⟨name, rest, rfl, ?_, rfl⟩⟩
      exact lowestFree?_eq_none_iff.mp found
    | some slot =>
      have lowest := lowestFree?_eq_some_iff.mp found
      obtain ⟨before, after, placed, rfl, fit, made, ends⟩ := ih (table.insert ⟨name.name, slot, name.width, none⟩)
      rw [taken_insert (fitsSlots_iff.mpr lowest.1.1)] at fit
      exact ⟨name :: before, after, _, rfl, .cons lowest fit, made, ends⟩

end SlotTable

/-! ### What the code uses -/

theorem max_eq_or (first second : UInt16) : max first second = first ∨ max first second = second := by
  show (if first ≤ second then second else first) = first ∨ (if first ≤ second then second else first) = second
  split
  · exact .inr rfl
  · exact .inl rfl

namespace SlotUse

/-- The use is of a slot written as a number, and ends beyond the last slot. -/
def Overruns (use : SlotUse) : Prop :=
  ∃ first, slotNumber? use.name = some first ∧ slotLimit < first.toNat + use.width.toNat

/-- The use is of a slot written as a number, and covers this one. -/
def Reserves (use : SlotUse) (slot : Nat) : Prop :=
  ∃ first, slotNumber? use.name = some first ∧ first.toNat ≤ slot ∧ slot < first.toNat + use.width.toNat

def numbered (uses : List SlotUse) : List (SlotUse × UInt16) :=
  uses.filterMap fun use => (slotNumber? use.name).map fun slot => (use, slot)

theorem mem_numbered {uses : List SlotUse} {use : SlotUse} {slot : UInt16} :
    (use, slot) ∈ numbered uses ↔ use ∈ uses ∧ slotNumber? use.name = some slot := by
  simp only [numbered, List.mem_filterMap, Option.map_eq_some_iff, Prod.mk.injEq]
  constructor
  · rintro ⟨_, listed, _, written, rfl, rfl⟩
    exact ⟨listed, written⟩
  · exact fun ⟨listed, written⟩ => ⟨use, listed, slot, written, rfl, rfl⟩

theorem declare_names (declared : List DeclaredName) (use : SlotUse) : (declare declared use).map (·.name) =
    if use.name ∈ declared.map (·.name) then declared.map (·.name) else declared.map (·.name) ++ [use.name] := by
  have known : declared.any (·.name == use.name) = true ↔ use.name ∈ declared.map (·.name) := by simp
  have kept : declared.map ((·.name) ∘ DeclaredName.widen use) = declared.map (·.name) :=
    List.map_congr_left fun name _ => name.widen_name use
  unfold declare
  simp only [known]
  split
  · exact List.map_map.trans kept
  · exact List.map_append

/-- Names are declared in the order of their first uses. -/
theorem declared_order (uses : List SlotUse) :
    (uses.foldl declare []).map (·.name) = (uses.map (·.name)).eraseDups := by
  induction uses using List.reverseRecOn with
  | nil => rfl
  | append_singleton earlier use ih =>
    rw [List.foldl_append, List.foldl_cons, List.foldl_nil, declare_names, ih, List.map_append, List.map_singleton,
      List.eraseDups_append, List.removeAll]
    simp only [List.mem_eraseDups]
    split
    next seen =>
      rw [List.filter_cons_of_neg (by simpa using seen), List.filter_nil]
      exact (List.append_nil _).symm
    next new =>
      rw [List.filter_cons_of_pos (by simpa using new), List.filter_nil]
      rfl

/-- A declared name is as wide as the widest of its uses. -/
theorem declared_attains (uses : List SlotUse) : ∀ name ∈ uses.foldl declare [],
    ∃ use ∈ uses, use.name = name.name ∧ use.width = name.width := by
  induction uses using List.reverseRecOn with
  | nil => exact fun _ listed => absurd listed List.not_mem_nil
  | append_singleton earlier use ih =>
    rw [List.foldl_append, List.foldl_cons, List.foldl_nil]
    intro name listed
    unfold declare at listed
    split at listed
    next =>
      obtain ⟨old, there, rfl⟩ := List.mem_map.mp listed
      obtain ⟨other, source, named, wide⟩ := ih old there
      split
      next same =>
        rcases max_eq_or old.width use.width with narrow | wider
        · exact ⟨other, List.mem_append_left _ source, named, wide.trans narrow.symm⟩
        · exact ⟨use, List.mem_append_right _ List.mem_cons_self, (eq_of_beq same).symm, wider.symm⟩
      next => exact ⟨other, List.mem_append_left _ source, named, wide⟩
    next =>
      rcases List.mem_append.mp listed with old | last
      · obtain ⟨other, source, same⟩ := ih name old
        exact ⟨other, List.mem_append_left _ source, same⟩
      · obtain rfl := List.mem_singleton.mp last
        exact ⟨use, List.mem_append_right _ List.mem_cons_self, rfl, rfl⟩

end SlotUse

namespace SlotTable

/-- The slot is taken already, by a variable, a parameter without a variable of its own or an earlier use by
number, or it is used by number here. -/
def TakenBy (table : SlotTable) (uses : List SlotUse) (slot : Nat) : Prop :=
  table.Taken slot ∨ ∃ use ∈ uses, use.Reserves slot

/-- The use is a store to a name that is not registered. -/
def introduces (table : SlotTable) (use : SlotUse) : Bool :=
  (slotNumber? use.name).isNone && use.isStore && !table.contains use.name

/-- The new names that are stored to, in the order of their first stores, as wide as their widest. -/
structure Introduces (table : SlotTable) (uses : List SlotUse) (names : List DeclaredName) : Prop where
  order : names.map (·.name) = ((uses.filter table.introduces).map (·.name)).eraseDups
  widest : ∀ name ∈ names, IsGreatest
    {width | ∃ use ∈ uses, table.introduces use = true ∧ use.name = name.name ∧ use.width.toNat = width}
    name.width.toNat

def newNames (table : SlotTable) (uses : List SlotUse) : List DeclaredName :=
  (uses.filter table.introduces).foldl SlotUse.declare []

variable {table : SlotTable} {uses : List SlotUse} {names : List DeclaredName} {placed : List Variable}

theorem newNames_distinct : (table.newNames uses).Pairwise fun first second => first.name ≠ second.name :=
  (declares_foldl _).distinct

theorem newNames_introduces : table.Introduces uses (table.newNames uses) := by
  have declares := declares_foldl (uses.filter table.introduces)
  refine ⟨SlotUse.declared_order _, fun name listed => ⟨?_, ?_⟩⟩
  · obtain ⟨use, source, named, wide⟩ := SlotUse.declared_attains _ name listed
    obtain ⟨used, introduced⟩ := List.mem_filter.mp source
    exact ⟨use, used, introduced, named, congrArg UInt16.toNat wide⟩
  · rintro _ ⟨use, used, introduced, named, rfl⟩
    obtain ⟨other, also, same, serves⟩ := declares.serves use (List.mem_filter.mpr ⟨used, introduced⟩)
    obtain rfl : other = name :=
      List.inj_on_of_nodup_map (List.pairwise_map.mpr newNames_distinct) also listed (same.trans named)
    exact serves

theorem Introduces.fresh (new : table.Introduces uses names) {name : DeclaredName} (listed : name ∈ names) :
    table.contains name.name = false := by
  obtain ⟨use, _, introduced, named, _⟩ := (new.widest name listed).1
  simp only [introduces, Bool.and_eq_true, Bool.not_eq_true'] at introduced
  exact named ▸ introduced.2

theorem taken_reserveAll {numbered : List (SlotUse × UInt16)}
    (fits : ∀ pair ∈ numbered, fitsSlots pair.2 pair.1.width = true) {slot : Nat} :
    (table.reserveAll numbered).Taken slot ↔ table.Taken slot ∨
      ∃ pair ∈ numbered, pair.2.toNat ≤ slot ∧ slot < pair.2.toNat + pair.1.width.toNat := by
  induction numbered generalizing table with
  | nil => simp [reserveAll]
  | cons pair rest ih =>
    refine (ih fun other listed => fits other (List.mem_cons_of_mem _ listed)).trans ?_
    rw [taken_reserve (fits pair List.mem_cons_self), or_assoc]
    simp only [List.mem_cons, exists_eq_or_imp]

theorem reserveAll_eq (table : SlotTable) (numbered : List (SlotUse × UInt16)) :
    (table.reserveAll numbered).entries = table.entries ∧ (table.reserveAll numbered).byName = table.byName := by
  induction numbered generalizing table with
  | nil => exact ⟨rfl, rfl⟩
  | cons pair rest ih => exact ih (table.reserve pair.2 pair.1.width)

theorem numbered_fits_iff : (∀ pair ∈ SlotUse.numbered uses, fitsSlots pair.2 pair.1.width = true) ↔
    ¬ ∃ use ∈ uses, use.Overruns := by
  simp only [fitsSlots_iff, Prod.forall, SlotUse.mem_numbered, SlotUse.Overruns, not_exists, not_and, Nat.not_lt]
  exact ⟨fun fits use listed slot written => fits use slot ⟨listed, written⟩,
    fun fits use slot ⟨listed, written⟩ => fits use listed slot written⟩

theorem taken_numbered (fits : ¬ ∃ use ∈ uses, use.Overruns) :
    (table.reserveAll (SlotUse.numbered uses)).Taken = table.TakenBy uses := by
  funext slot
  rw [TakenBy, taken_reserveAll (numbered_fits_iff.mpr fits)]
  simp only [Prod.exists, SlotUse.mem_numbered, SlotUse.Reserves, and_assoc, exists_and_left]

theorem allocate_fitting (fits : ¬ ∃ use ∈ uses, use.Overruns) :
    table.allocate uses = (table.reserveAll (SlotUse.numbered uses)).place (table.newNames uses) := by
  have good := numbered_fits_iff.mpr fits
  have whole := @List.takeWhile_append_of_pos _ _ (SlotUse.numbered uses) [] good
  rw [List.takeWhile_nil, List.append_nil] at whole
  unfold allocate
  extract_lets numbered fitting reserved stores
  have folded : reserved = table.reserveAll numbered := congrArg table.reserveAll whole
  split
  next use slot found =>
    have unfit := List.find?_some found
    have fit : fitsSlots slot use.width = true := good _ (List.mem_of_find?_eq_some found)
    simp [fit] at unfit
  next =>
    rw [folded]
    rfl

theorem allocate_overrunning (table : SlotTable) (overruns : ∃ use ∈ uses, use.Overruns) :
    (table.allocate uses).1 = table.reserveAll
        ((SlotUse.numbered uses).takeWhile fun pair => fitsSlots pair.2 pair.1.width) ∧
      ∃ error, (table.allocate uses).2 = .error error := by
  unfold allocate
  extract_lets numbered fitting reserved stores
  split
  next => exact ⟨rfl, _, rfl⟩
  next all =>
    refine absurd overruns (numbered_fits_iff.mp fun pair listed => ?_)
    simpa using List.find?_eq_none.mp all pair listed

theorem registers_firstFit (fit : FirstFit table.Taken names placed)
    (distinct : names.Pairwise fun first second => first.name ≠ second.name)
    (fresh : ∀ name ∈ names, table.contains name.name = false) (positive : ∀ name ∈ names, 0 < name.width.toNat) :
    Registers AllowsNew table (table.insertAll placed) := by
  induction names generalizing table placed with
  | nil =>
    cases fit
    exact .refl
  | cons name rest ih =>
    obtain ⟨apart, distinct⟩ := List.pairwise_cons.mp distinct
    obtain ⟨here, fresh⟩ := List.forall_mem_cons.mp fresh
    obtain ⟨wide, positive⟩ := List.forall_mem_cons.mp positive
    cases fit with
    | @cons _ _ slot _ _ lowest later =>
      have fits := fitsSlots_iff.mpr lowest.1.1
      rw [← taken_insert fits] at later
      have first : Registers AllowsNew table (table.insert ⟨name.name, slot, name.width, none⟩) :=
        .insert .refl fits here wide ⟨fun other covers => lowest.1.2 other covers.1 covers.2, rfl⟩
      refine first.trans (ih later distinct ?_ positive)
      intro other listed
      rw [contains_eq, get?_insert, if_neg (apart other listed), ← contains_eq]
      exact fresh other listed

/-- Whether or not it fails, an allocation only reserves slots and registers new names. -/
theorem allocate_registers (positive : ∀ use ∈ uses, 0 < use.width.toNat) :
    Registers AllowsNew table (table.allocate uses).1 := by
  by_cases overruns : ∃ use ∈ uses, use.Overruns
  · rw [(allocate_overrunning table overruns).1]
    exact (reserveAll_registers _ table (List.all_eq_true.mp List.all_takeWhile)).1
  · rw [allocate_fitting overruns]
    obtain ⟨grown, same, _⟩ := reserveAll_registers AllowsNew table (numbered_fits_iff.mpr overruns)
    obtain ⟨before, after, placed, split, fit, made, _⟩ := place_firstFit
      (table.reserveAll (SlotUse.numbered uses)) (table.newNames uses)
    have new : table.Introduces uses (table.newNames uses) := newNames_introduces
    have listed {name : DeclaredName} (among : name ∈ before) : name ∈ table.newNames uses :=
      split ▸ List.mem_append_left _ among
    rw [made]
    refine grown.trans (registers_firstFit fit ?_ ?_ ?_)
    · have distinct : (table.newNames uses).Pairwise fun first second => first.name ≠ second.name := newNames_distinct
      rw [split] at distinct
      exact (List.pairwise_append.mp distinct).1
    · intro name among
      rw [same]
      exact new.fresh (listed among)
    · intro name among
      obtain ⟨use, used, _, _, wide⟩ := (new.widest name (listed among)).1
      exact wide ▸ positive use used

/-- The tables that any operations in any order make. -/
inductive Reachable : SlotTable → Prop where
  | ofMethod (isStatic : Bool) (declaringType : String) : Reachable (ofMethod isStatic declaringType)
  | addBaseline {table : SlotTable} (earlier : Reachable table) (baseline : List BaselineVariable) :
      Reachable (table.addBaseline baseline)
  | addParameters {table : SlotTable} (earlier : Reachable table) (parameters : List Parameter) :
      Reachable (table.addParameters parameters)
  | allocate {table : SlotTable} (earlier : Reachable table) (listing : Listing) (aliases : Aliases) :
      Reachable (table.allocate (SlotUse.ofListing listing aliases)).1
  | inferRanges {table : SlotTable} (earlier : Reachable table) (frames : List (Option Verify.Frame)) :
      Reachable (table.inferRanges frames)

theorem Reachable.sound (reachable : table.Reachable) : table.Sound := by
  induction reachable with
  | ofMethod isStatic declaringType => exact (ofMethod_registers isStatic declaringType).sound (sound_empty isStatic)
  | addBaseline _ baseline ih => exact (addBaseline_registers _ baseline).sound ih
  | addParameters _ parameters ih => exact (addParameters_registers _ parameters).sound ih
  | allocate _ listing aliases ih => exact (allocate_registers fun _ => SlotUse.positive).sound ih
  | inferRanges _ frames ih => exact ⟨ih.known, ih.reserved, ih.below, ih.filled⟩

/-- What a successful allocation makes of a table: the entries stay, and the new ones get the lowest free
runs around what is taken and what is used by number. -/
structure Allocates (table final : SlotTable) (uses : List SlotUse) (names : List DeclaredName)
    (placed : List Variable) : Prop where
  fit : FirstFit (table.TakenBy uses) names placed
  entries : final.entries.toList = table.entries.toList ++ placed
  found : ∀ name, final.get? name = (table.get? name).or (placed.find? (·.name == name))
  taken : ∀ slot, final.Taken slot ↔ table.TakenBy uses slot ∨ ∃ entry ∈ placed, entry.Covers slot
  apart : placed.Pairwise Variable.Disjoint
  clear : ∀ entry ∈ placed, ∀ slot, entry.Covers slot → ¬ table.TakenBy uses slot
  beside : table.Reachable → ∀ old ∈ table.entries, ∀ entry ∈ placed, old.Disjoint entry

theorem allocates_firstFit (fits : ¬ ∃ use ∈ uses, use.Overruns)
    (fit : FirstFit (table.TakenBy uses) (table.newNames uses) placed) :
    table.Allocates ((table.reserveAll (SlotUse.numbered uses)).insertAll placed) uses (table.newNames uses)
      placed := by
  obtain ⟨same, known⟩ := reserveAll_eq table (SlotUse.numbered uses)
  obtain ⟨clear, apart⟩ := fit.apart
  refine ⟨fit, ?_, ?_, ?_, apart, clear, ?_⟩
  · rw [entries_insertAll, same]
  · intro name
    have distinct : placed.Pairwise fun first second => first.name ≠ second.name := by
      apply List.pairwise_map.mp
      rw [fit.map_name]
      exact List.pairwise_map.mpr newNames_distinct
    have kept : (table.reserveAll (SlotUse.numbered uses)).get? name = table.get? name := by
      rw [get?, known, get?]
    rw [get?_insertAll distinct, kept]
    cases old : table.get? name with
    | none => exact Option.or_none
    | some entry =>
      have new : placed.find? (·.name == name) = none := by
        refine List.find?_eq_none.mpr fun other listed also => ?_
        have among : other.name ∈ (table.newNames uses).map (·.name) := fit.map_name ▸ List.mem_map_of_mem listed
        obtain ⟨declared, there, called⟩ := List.mem_map.mp among
        have fresh := newNames_introduces.fresh there
        rw [called, eq_of_beq also, contains_eq, old] at fresh
        cases fresh
      rw [new]
      rfl
  · intro slot
    rw [taken_insertAll fit.fits, taken_numbered fits]
  · intro reachable old listed entry given slot covers within
    exact clear entry given slot within (.inl (reachable.sound.reserved old listed slot covers))

/-- Allocation fails exactly if a slot used by number is out of range or a name finds no free run.
Otherwise it is a first fit of the new names around all that is taken or used by number. -/
theorem allocate_firstFit (table : SlotTable) (listing : Listing) (aliases : Aliases) :
    ∃ names, table.Introduces (SlotUse.ofListing listing aliases) names ∧
      ((∃ error, (table.allocate (SlotUse.ofListing listing aliases)).2 = .error error) ↔
        (∃ use ∈ SlotUse.ofListing listing aliases, use.Overruns) ∨
          Exhausts (table.TakenBy (SlotUse.ofListing listing aliases)) names) ∧
      ∀ final, table.allocate (SlotUse.ofListing listing aliases) = (final, .ok ()) →
        ∃ placed, table.Allocates final (SlotUse.ofListing listing aliases) names placed := by
  generalize SlotUse.ofListing listing aliases = uses
  refine ⟨table.newNames uses, newNames_introduces, ?_⟩
  by_cases overruns : ∃ use ∈ uses, use.Overruns
  · obtain ⟨_, error, failed⟩ := allocate_overrunning table overruns
    refine ⟨iff_of_true ⟨error, failed⟩ (.inl overruns), fun final allocated => ?_⟩
    rw [allocated] at failed
    cases failed
  · obtain ⟨before, after, placed, split, fit, made, ends⟩ := place_firstFit
      (table.reserveAll (SlotUse.numbered uses)) (table.newNames uses)
    rw [allocate_fitting overruns]
    rw [taken_numbered overruns] at fit
    rcases ends with ⟨rfl, succeeds⟩ | ⟨name, rest, rfl, none, fails⟩
    · rw [List.append_nil] at split
      subst split
      rw [succeeds]
      refine ⟨iff_of_false (fun ⟨_, failed⟩ => nomatch failed) ?_, fun final allocated => ?_⟩
      · exact fun either => either.elim overruns fit.not_exhausts
      · obtain rfl : _ = final := made.symm.trans (congrArg Prod.fst allocated)
        exact ⟨placed, allocates_firstFit overruns fit⟩
    · rw [taken_insertAll fit.fits, taken_numbered overruns] at none
      refine ⟨iff_of_true ⟨_, fails⟩ (.inr ⟨before, name, rest, placed, split, fit, none⟩), fun final allocated => ?_⟩
      rw [allocated] at fails
      cases fails

end SlotTable
end Bytecode
