import Bytecode.Proofs.Shuffles

/-! The stack as words. The instructions that move values of any type are defined on blocks of words, two
for a wide value; they move whole values exactly where no block cuts a wide one. -/

namespace Bytecode.Verify
open List

/-- All of a value of one slot, or one half of a wide value, whose high half lies on top. -/
inductive Word where
  | whole (value : Value)
  | high (value : Value)
  | low (value : Value)
  deriving DecidableEq

def Value.words (value : Value) : List Word :=
  if value.isWide then [.high value, .low value] else [.whole value]

/-- The words of a stack, the top first. -/
def words (stack : List Value) : List Word := stack.flatMap Value.words

/-- A block that takes one half of a wide value and leaves the other. -/
def Cuts (block : List Word) : Prop :=
  (∃ value, block.head? = some (.low value)) ∨ ∃ value, block.getLast? = some (.high value)

/-- What becomes of the block on top. -/
inductive BlockMove where
  | removed
  /-- A copy goes beneath the next block. -/
  | copied
  /-- It changes places with the next block. -/
  | exchanged
  deriving DecidableEq

def BlockMove.arrange {α : Type} (move : BlockMove) (top beneath : List α) : List α :=
  match move with
  | removed => beneath
  | copied => top ++ beneath ++ top
  | exchanged => beneath ++ top

/-- An instruction on words: how many the block on top has, how many the block beneath it, and what it does. -/
structure WordShuffle where
  move : BlockMove
  top : Nat
  beneath : Nat
  deriving DecidableEq

namespace WordShuffle

def ofOpcode? : Opcode → Option WordShuffle
  | .pop => some ⟨.removed, 1, 0⟩
  | .pop2 => some ⟨.removed, 2, 0⟩
  | .dup => some ⟨.copied, 1, 0⟩
  | .dupX1 => some ⟨.copied, 1, 1⟩
  | .dupX2 => some ⟨.copied, 1, 2⟩
  | .dup2 => some ⟨.copied, 2, 0⟩
  | .dup2X1 => some ⟨.copied, 2, 1⟩
  | .dup2X2 => some ⟨.copied, 2, 2⟩
  | .swap => some ⟨.exchanged, 1, 1⟩
  | _ => none

variable (shuffle : WordShuffle)

def topBlock (words : List Word) : List Word := words.take shuffle.top

def nextBlock (words : List Word) : List Word := (words.drop shuffle.top).take shuffle.beneath

/-- There are words enough, and neither block cuts a wide value. -/
structure Applies (words : List Word) : Prop where
  enough : shuffle.top + shuffle.beneath ≤ words.length
  top : ¬ Cuts (shuffle.topBlock words)
  next : ¬ Cuts (shuffle.nextBlock words)

def apply (words : List Word) : List Word :=
  shuffle.move.arrange (shuffle.topBlock words) (shuffle.nextBlock words) ++
    words.drop (shuffle.top + shuffle.beneath)

end WordShuffle

section
variable {stack upper lower : List Value} {count : Nat}

@[simp] theorem words_append (upper lower : List Value) : words (upper ++ lower) = words upper ++ words lower :=
  List.flatMap_append

theorem words_cons (value : Value) (stack : List Value) : words (value :: stack) = value.words ++ words stack :=
  rfl

theorem Value.length_words (value : Value) : value.words.length = value.size := by
  cases value <;> rfl

@[simp] theorem length_words (stack : List Value) : (words stack).length = stackHeight stack := by
  induction stack with
  | nil => rfl
  | cons value rest ih => rw [words_cons, List.length_append, value.length_words, ih, stackHeight]

theorem Value.words_whole (value : Value) : ¬ Cuts value.words := by
  unfold Value.words Cuts
  split <;> simp

/-- Whole values cut nothing. -/
theorem words_whole (stack : List Value) : ¬ Cuts (words stack) := by
  rintro (⟨value, first⟩ | ⟨value, last⟩)
  · cases stack with
    | nil => cases first
    | cons top rest =>
      rw [words_cons, List.head?_append_of_ne_nil _ (by unfold Value.words; split <;> simp)] at first
      exact top.words_whole (.inl ⟨value, first⟩)
  · rcases List.eq_nil_or_concat stack with rfl | ⟨rest, bottom, rfl⟩
    · cases last
    · have single : words [bottom] = bottom.words := by simp [words]
      rw [List.concat_eq_append, words_append, single,
        List.getLast?_append_of_ne_nil _ (by unfold Value.words; split <;> simp)] at last
      exact bottom.words_whole (.inr ⟨value, last⟩)

/-- So many words are those of some values unless they end in the midst of one. -/
theorem exists_values (enough : count ≤ (words stack).length) (whole : ¬ Cuts ((words stack).take count)) :
    ∃ upper rest, stack = upper ++ rest ∧ stackHeight upper = count := by
  have ends : ∀ value, ((words stack).take count).getLast? ≠ some (.high value) :=
    fun value last => whole (.inr ⟨value, last⟩)
  clear whole
  induction stack generalizing count with
  | nil =>
    obtain rfl : count = 0 := Nat.le_zero.mp enough
    exact ⟨[], [], rfl, rfl⟩
  | cons value rest ih =>
    rw [words_cons] at enough ends
    rw [List.length_append, value.length_words] at enough
    by_cases fits : value.size ≤ count
    · have split : (value.words ++ words rest).take count =
          value.words ++ (words rest).take (count - value.size) := by
        rw [List.take_append, value.length_words, List.take_of_length_le (by rwa [value.length_words])]
      have later : ∀ other, ((words rest).take (count - value.size)).getLast? ≠ some (.high other) := by
        intro other last
        exact ends other (by rw [split, List.getLast?_append, last]; rfl)
      obtain ⟨upper, below, rfl, height⟩ := ih (by omega) later
      exact ⟨value :: upper, below, rfl, by rw [stackHeight, height]; omega⟩
    · rcases Nat.eq_zero_or_pos count with rfl | positive
      · exact ⟨[], value :: rest, rfl, rfl⟩
      · -- the one word is the high half of a wide value
        have wide : value.isWide = true := by
          cases value <;> first | rfl | exact absurd positive fits
        obtain rfl : count = 1 := by
          have two : value.size = 2 := by simpa [Value.isWide] using wide
          omega
        exact absurd (by simp [Value.words, wide]) (ends value)

end

namespace WordShuffle

/-- The widths of values that take so many words together. -/
def widths : Nat → List (List Bool)
  | 0 => [[]]
  | 1 => [[false]]
  | count + 2 => (widths count).map (true :: ·) ++ (widths (count + 1)).map (false :: ·)

theorem mem_widths {values : List Value} {count : Nat} :
    values.map Value.isWide ∈ widths count ↔ stackHeight values = count := by
  induction values generalizing count with
  | nil => rcases count with _ | _ | count <;> simp [widths, stackHeight]
  | cons value rest ih =>
    have none := @ih 0
    cases wide : value.isWide with
    | true =>
      have two : value.size = 2 := by simpa [Value.isWide] using wide
      rcases count with _ | _ | count <;> simp [widths, stackHeight, two, wide, ih] <;> omega
    | false =>
      have one : value.size = 1 := by
        cases value <;> first | rfl | cases wide
      rcases count with _ | _ | count <;> simp [widths, stackHeight, one, wide, ih] at none ⊢ <;> omega

/-- The forms of an instruction, by the widths of the values in its two blocks. -/
def forms (shuffle : WordShuffle) : List StackForm :=
  (widths shuffle.top).flatMap fun upper => (widths shuffle.beneath).map fun lower =>
    ⟨upper ++ lower, shuffle.move.arrange (List.range' 0 upper.length) (List.range' upper.length lower.length)⟩

variable {opcode : Opcode} {shuffle : WordShuffle}

theorem ofOpcode_eq_forms (known : ofOpcode? opcode = some shuffle) :
    StackForm.ofOpcode opcode = shuffle.forms := by
  cases opcode <;> cases known <;> rfl

theorem filterMap_range' {α : Type} (before block after : List α) :
    (List.range' before.length block.length).filterMap ((before ++ (block ++ after))[·]?) = block := by
  induction block generalizing before with
  | nil => rfl
  | cons value rest ih =>
    have step := ih (before ++ [value])
    simp only [List.length_append, List.length_singleton, List.append_assoc, List.singleton_append] at step
    rw [List.length_cons, List.range'_succ, List.filterMap_cons, List.cons_append, step]
    simp

/-- A form arranges the two blocks as they are. -/
theorem arrange_append (move : BlockMove) {α : Type} (widths : List Bool) (upper lower : List α) :
    StackForm.arrange ⟨widths, move.arrange (List.range' 0 upper.length) (List.range' upper.length lower.length)⟩
      (upper ++ lower) = move.arrange upper lower := by
  have first : (List.range' 0 upper.length).filterMap ((upper ++ lower)[·]?) = upper :=
    filterMap_range' [] upper lower
  have second : (List.range' upper.length lower.length).filterMap ((upper ++ lower)[·]?) = lower := by
    simpa using filterMap_range' upper lower []
  cases move <;> simp [StackForm.arrange, BlockMove.arrange, first, second]

theorem words_arrange (move : BlockMove) (upper lower : List Value) :
    words (move.arrange upper lower) = move.arrange (words upper) (words lower) := by
  cases move <;> simp [BlockMove.arrange]

/-- The instruction takes two blocks of whole values and arranges them. -/
theorem shuffle_blocks (known : ofOpcode? opcode = some shuffle) {limit : Nat} {locals stack : List Value}
    {after : Frame} (room : stackHeight stack ≤ limit) :
    (Step.shuffle limit opcode).run ⟨locals, stack⟩ = .ok ((), after) ↔
      ∃ upper lower rest, stack = upper ++ (lower ++ rest) ∧ stackHeight upper = shuffle.top ∧
        stackHeight lower = shuffle.beneath ∧ stackHeight (shuffle.move.arrange upper lower ++ rest) ≤ limit ∧
          after = ⟨locals, shuffle.move.arrange upper lower ++ rest⟩ := by
  rw [Step.shuffle_ok, ofOpcode_eq_forms known]
  constructor
  · rintro ⟨form, listed, taken, widths, rest, rfl, fits, rfl⟩
    obtain ⟨first, top, listed⟩ := List.mem_flatMap.mp listed
    obtain ⟨second, next, rfl⟩ := List.mem_map.mp listed
    obtain ⟨upper, lower, rfl, rfl, rfl⟩ := List.map_eq_append_iff.mp widths
    simp only [List.length_map] at fits ⊢
    have arranged := arrange_append shuffle.move (upper.map Value.isWide ++ lower.map Value.isWide) upper lower
    refine ⟨upper, lower, rest, List.append_assoc .., mem_widths.mp top, mem_widths.mp next, ?_, by rw [arranged]⟩
    rcases fits with none | fits
    · -- what only removes words asks for no room
      have nothing : shuffle.move.arrange upper lower = [] := by
        rw [none] at arranged
        exact arranged.symm
      simp only [stackHeight_append] at room
      rw [nothing, List.nil_append]
      omega
    · rwa [arranged] at fits
  · rintro ⟨upper, lower, rest, rfl, top, next, fits, rfl⟩
    have listed : ⟨upper.map Value.isWide ++ lower.map Value.isWide,
        shuffle.move.arrange (List.range' 0 upper.length) (List.range' upper.length lower.length)⟩ ∈
          shuffle.forms := by
      refine List.mem_flatMap.mpr ⟨_, mem_widths.mpr top, List.mem_map.mpr ⟨_, mem_widths.mpr next, ?_⟩⟩
      simp only [List.length_map]
    refine ⟨_, listed, upper ++ lower, List.map_append, rest, (List.append_assoc ..).symm, .inr ?_, ?_⟩
    · rwa [arrange_append]
    · rw [arrange_append]

section
variable {upper lower rest : List Value} (top : stackHeight upper = shuffle.top)
include top

theorem topBlock_append : shuffle.topBlock (words (upper ++ (lower ++ rest))) = words upper := by
  rw [words_append, topBlock, List.take_left' (by rw [length_words, top])]

variable (next : stackHeight lower = shuffle.beneath)
include next

theorem nextBlock_append : shuffle.nextBlock (words (upper ++ (lower ++ rest))) = words lower := by
  rw [words_append, words_append, nextBlock, List.drop_left' (by rw [length_words, top]),
    List.take_left' (by rw [length_words, next])]

theorem apply_append :
    shuffle.apply (words (upper ++ (lower ++ rest))) = words (shuffle.move.arrange upper lower ++ rest) := by
  rw [apply, topBlock_append top, nextBlock_append top next, words_append (shuffle.move.arrange upper lower),
    words_arrange, ← List.append_assoc, words_append (upper ++ lower), List.drop_left']
  rw [length_words, stackHeight_append, top, next]

end

/-- The words are enough and uncut exactly if the two blocks are made of whole values. -/
theorem applies_iff {stack : List Value} : shuffle.Applies (words stack) ↔ ∃ upper lower rest,
    stack = upper ++ (lower ++ rest) ∧ stackHeight upper = shuffle.top ∧ stackHeight lower = shuffle.beneath := by
  constructor
  · rintro ⟨enough, whole, uncut⟩
    obtain ⟨upper, below, rfl, top⟩ := exists_values (by omega) whole
    have left : (words (upper ++ below)).drop shuffle.top = words below := by
      rw [words_append, List.drop_left' (by rw [length_words, top])]
    rw [nextBlock, left] at uncut
    rw [words_append, List.length_append, length_words upper, top] at enough
    obtain ⟨lower, rest, rfl, next⟩ := exists_values (by omega) uncut
    exact ⟨upper, lower, rest, rfl, top, next⟩
  · rintro ⟨upper, lower, rest, rfl, top, next⟩
    refine ⟨?_, ?_, ?_⟩
    · simp only [length_words, stackHeight_append]
      omega
    · rw [topBlock_append top]
      exact words_whole upper
    · rw [nextBlock_append top next]
      exact words_whole lower

end WordShuffle

theorem transfer_shuffle {opcode : Opcode} {shuffle : WordShuffle}
    (known : WordShuffle.ofOpcode? opcode = some shuffle) (around : Surroundings) (index : Nat) :
    transfer around index (.simple opcode) = Step.shuffle around.maxStack opcode := by
  cases opcode <;> cases known <;> rfl

/-- An instruction that moves values of any type goes through exactly if it does on words, with whole values
in its blocks and room for the result, and leaves the words that it leaves on words. -/
theorem transfer_words {opcode : Opcode} {shuffle : WordShuffle}
    (known : WordShuffle.ofOpcode? opcode = some shuffle) {around : Surroundings} {locals stack : List Value}
    (room : (words stack).length ≤ around.maxStack) (index : Nat) :
    ((∃ after, (transfer around index (.simple opcode)).run ⟨locals, stack⟩ = .ok ((), after)) ↔
      shuffle.Applies (words stack) ∧ (shuffle.apply (words stack)).length ≤ around.maxStack) ∧
    ∀ after, (transfer around index (.simple opcode)).run ⟨locals, stack⟩ = .ok ((), after) →
      after.locals = locals ∧ words after.stack = shuffle.apply (words stack) := by
  rw [length_words] at room
  simp only [transfer_shuffle known, WordShuffle.shuffle_blocks known room]
  constructor
  · constructor
    · rintro ⟨_, upper, lower, rest, rfl, top, next, fits, rfl⟩
      refine ⟨WordShuffle.applies_iff.mpr ⟨upper, lower, rest, rfl, top, next⟩, ?_⟩
      rwa [WordShuffle.apply_append top next, length_words]
    · rintro ⟨applies, fits⟩
      obtain ⟨upper, lower, rest, rfl, top, next⟩ := WordShuffle.applies_iff.mp applies
      rw [WordShuffle.apply_append top next, length_words] at fits
      exact ⟨_, upper, lower, rest, rfl, top, next, fits, rfl⟩
  · rintro _ ⟨upper, lower, rest, rfl, top, next, _, rfl⟩
    exact ⟨rfl, (WordShuffle.apply_append top next).symm⟩

/-- Six slots of stack. -/
def sixSlots : Surroundings := ⟨"Main", false, none, 6⟩

theorem transfer_words_deep : WordShuffle.ofOpcode? .dup2X2 = some ⟨.copied, 2, 2⟩ ∧
    (words [.long, .int, .float]).length ≤ sixSlots.maxStack ∧
    ∃ after, (transfer sixSlots 0 (.simple .dup2X2)).run ⟨[], [.long, .int, .float]⟩ = .ok ((), after) ∧
      after.locals = [] ∧ words after.stack =
        [.high .long, .low .long, .whole .int, .whole .float, .high .long, .low .long] := by
  have room : (words [.long, .int, .float]).length ≤ sixSlots.maxStack := by decide
  have known : WordShuffle.ofOpcode? .dup2X2 = some ⟨.copied, 2, 2⟩ := rfl
  obtain ⟨goes, leaves⟩ := @transfer_words _ _ known sixSlots [] _ room 0
  have applies : (⟨.copied, 2, 2⟩ : WordShuffle).Applies (words [.long, .int, .float]) :=
    WordShuffle.applies_iff.mpr ⟨[.long], [.int, .float], [], rfl, rfl, rfl⟩
  obtain ⟨after, done⟩ := goes.mpr ⟨applies, by decide⟩
  exact ⟨known, room, after, done, leaves after done⟩

end Bytecode.Verify
