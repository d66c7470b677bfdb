import Mathlib.Data.Set.Insert
import U6fs.Lib.Rotation
import U6fs.Lib.Word
import U6fs.Layout

/-!
# Bitmap vectors (`bmblock.c`)

A bitmap keeps one bit for every number of an inclusive range in 64-bit words, and a cursor
from which the search for a clear bit starts. The range and the size of the word array are
fixed when a bitmap is allocated; the structure carries them as proofs, so every index the
functions use is inside the array.

The results say what a caller may rely on: setting a bit adds one number, and the search
returns a number of the range whose bit is clear, fails only when there is none, and changes
no bit.
-/
namespace U6fs

open Lib

/-- `BITS_PER_VECTOR`. -/
abbrev bitsPerVector : Nat := 64

/-- `struct bmblock_array`, with what `bm_alloc` establishes. -/
structure BmblockArray where
  /-- Word at which the search starts. -/
  cursor : Nat
  /-- The smallest number of the range. -/
  min : Nat
  /-- The largest number of the range. -/
  max : Nat
  /-- Number of words. -/
  length : Nat
  /-- The words. -/
  bm : List UInt64
  /-- The range holds a number. -/
  range : min ≤ max
  /-- There are enough words and no more. -/
  sized : length = (max - min) / bitsPerVector + 1
  /-- The array has the stored length. -/
  words : bm.length = length
  /-- The cursor is a word index. -/
  inside : cursor < length

/-- `bm_alloc`; `malloc` is taken to succeed. -/
def bmAlloc (min max : Nat) : Option BmblockArray :=
  if range : max < min then none
  else some {
    cursor := 0
    min, max
    length := (max - min) / bitsPerVector + 1
    bm := List.replicate ((max - min) / bitsPerVector + 1) 0
    range := Nat.not_lt.mp range
    sized := rfl
    words := List.length_replicate
    inside := Nat.succ_pos _ }

namespace BmblockArray

/-- The word that holds the bit of a number of the range exists. -/
theorem index_lt (b : BmblockArray) {x : Nat} (low : b.min ≤ x) (high : x ≤ b.max) :
    (x - b.min) / bitsPerVector < b.bm.length := by
  have := b.words
  have := b.sized
  have : (x - b.min) / bitsPerVector ≤ (b.max - b.min) / bitsPerVector :=
    Nat.div_le_div_right (by omega)
  omega

/-- There is a word for every index below the stored length. -/
theorem length_eq (b : BmblockArray) : b.length = b.bm.length := b.words.symm

end BmblockArray

/-- `bm_get`. -/
def bmGet (b : BmblockArray) (x : Nat) : Int :=
  if range : b.min ≤ x ∧ x ≤ b.max then
    ((b.bm.get ⟨(x - b.min) / bitsPerVector, b.index_lt range.1 range.2⟩
      >>> ((x - b.min) % bitsPerVector).toUInt64) &&& 1).toNat
  else errBadParameter

/-- `bm_set`. -/
def bmSet (b : BmblockArray) (x : Nat) : BmblockArray :=
  if range : b.min ≤ x ∧ x ≤ b.max then
    { b with
      bm := b.bm.set ((x - b.min) / bitsPerVector)
        (b.bm.get ⟨(x - b.min) / bitsPerVector, b.index_lt range.1 range.2⟩ |||
          (1 <<< ((x - b.min) % bitsPerVector).toUInt64))
      words := by rw [List.length_set, b.words] }
  else b

/-- `bm_clear`. -/
def bmClear (b : BmblockArray) (x : Nat) : BmblockArray :=
  if range : b.min ≤ x ∧ x ≤ b.max then
    { b with
      bm := b.bm.set ((x - b.min) / bitsPerVector)
        (b.bm.get ⟨(x - b.min) / bitsPerVector, b.index_lt range.1 range.2⟩ &&&
          ~~~(1 <<< ((x - b.min) % bitsPerVector).toUInt64))
      words := by rw [List.length_set, b.words] }
  else b

/-- The bitmap with its cursor at word `i` counted around from `start`. -/
def bmMoveTo (b : BmblockArray) (start i : Nat) : BmblockArray :=
  { b with
    cursor := (start + i) % b.length
    inside := Nat.mod_lt (start + i) (Nat.lt_of_le_of_lt (Nat.zero_le _) b.inside) }

/-- The inner loop of `bm_find_next`: the first number of a word whose bit reads 0. -/
def bmFindInWord (b : BmblockArray) : Option Nat :=
  if b.bm.get ⟨b.cursor, by have := b.words; have := b.inside; omega⟩ ≠ -1 then
    ((List.range bitsPerVector).find? fun j =>
      bmGet b (b.cursor * bitsPerVector + j + b.min) = 0).map fun j =>
        b.cursor * bitsPerVector + j + b.min
  else none

/-- The outer loop of `bm_find_next`: `count` words from word `i` after `start` on. -/
def bmFindFrom (start : Nat) : Nat → Nat → BmblockArray → Int × BmblockArray
  | 0, _, b => (errBitmapFull, b)
  | count + 1, i, b =>
    let b := bmMoveTo b start i
    match bmFindInWord b with
    | some bit => (toInt32 bit, b)
    | none => bmFindFrom start count (i + 1) b

/-- `bm_find_next`. -/
def bmFindNext (b : BmblockArray) : Int × BmblockArray := bmFindFrom b.cursor b.length 0 b

/-- `print_bit`. -/
def printBit (value positionMask : UInt8) : Char :=
  if value &&& positionMask ≠ 0 then '1' else '0'

/-- `print_binary_byte`. -/
def printBinaryByte (value : UInt8) : List Char :=
  [printBit value 0x01, printBit value 0x02, printBit value 0x04, printBit value 0x08,
    printBit value 0x10, printBit value 0x20, printBit value 0x40, printBit value 0x80]

/-- `print_slice`. -/
def printSlice (value slide : UInt64) : List Char :=
  printBinaryByte ((value >>> slide) &&& 0xff).toUInt8

/-- `println_binary_uint64_t`. -/
def printlnBinaryUint64 (value : UInt64) : List Char :=
  printSlice value 0 ++ [' '] ++ printSlice value 8 ++ [' '] ++ printSlice value 16 ++ [' '] ++
    printSlice value 24 ++ [' '] ++ printSlice value 32 ++ [' '] ++ printSlice value 40 ++ [' '] ++
    printSlice value 48 ++ [' '] ++ printSlice value 56 ++ ['\n']

/-- `%zu` and `PRIu64`. -/
def printDecimal (n : Nat) : List Char := Nat.toDigits 10 n

/-- `%2zu`. -/
def printDecimal2 (n : Nat) : List Char := (printDecimal n).leftpad 2 ' '

/-- `bm_print`. -/
def bmPrint (name : List Char) (b : BmblockArray) : List Char :=
  "**********BitMap Block ".toList ++ name ++ " START**********\n".toList ++
    "length: ".toList ++ printDecimal b.length ++ ['\n'] ++
    "min: ".toList ++ printDecimal b.min ++ ['\n'] ++
    "max: ".toList ++ printDecimal b.max ++ ['\n'] ++
    "cursor: ".toList ++ printDecimal b.cursor ++ ['\n'] ++
    "content:\n".toList ++
    ((List.finRange b.length).flatMap fun i : Fin b.length =>
      printDecimal2 i ++ ": ".toList ++ printlnBinaryUint64 (b.bm.get (i.cast b.length_eq))) ++
    "**********BitMap Block ".toList ++ name ++ " END************\n".toList

namespace BmblockArray

/-- The bit of `x` is set; numbers outside the range have no bit. -/
def Marked (b : BmblockArray) (x : Nat) : Prop := bmGet b x = 1

instance (b : BmblockArray) (x : Nat) : Decidable (b.Marked x) :=
  inferInstanceAs (Decidable (bmGet b x = 1))

/-- Every clear bit lies in the word of the cursor or after it. -/
def Swept (b : BmblockArray) : Prop := ∀ x, bmGet b x = 0 → b.cursor ≤ (x - b.min) / bitsPerVector

/-- Two bitmaps over one range that have the same bits set. -/
structure SameBits (left right : BmblockArray) : Prop where
  /-- The ranges start together. -/
  min : left.min = right.min
  /-- The ranges end together. -/
  max : left.max = right.max
  /-- Every number reads the same. -/
  get : ∀ x, bmGet left x = bmGet right x

end BmblockArray

open BmblockArray

/-- Inside the range a bit reads as 0 or 1. -/
theorem bmGet_inside (b : BmblockArray) {x : Nat} (low : b.min ≤ x) (high : x ≤ b.max) :
    bmGet b x = if Word.bit (b.bm.getD ((x - b.min) / bitsPerVector) 0)
      ((x - b.min) % bitsPerVector) then 1 else 0 := by
  rw [bmGet, dif_pos ⟨low, high⟩, Word.shift_and_one _ (Nat.mod_lt _ (by decide)),
    List.get_eq_getElem, List.getD_eq_getElem _ _ (b.index_lt low high)]
  split <;> rfl

/-- Outside the range there is no bit. -/
theorem bmGet_outside (b : BmblockArray) {x : Nat} (outside : ¬(b.min ≤ x ∧ x ≤ b.max)) :
    bmGet b x = errBadParameter := dif_neg outside

/-- Only numbers of the range are marked. -/
theorem Marked.inside {b : BmblockArray} {x : Nat} (marked : b.Marked x) :
    b.min ≤ x ∧ x ≤ b.max := by
  by_contra outside
  rw [BmblockArray.Marked, bmGet_outside b outside] at marked
  contradiction

/-- A number of the range reads 0 exactly when it is not marked. -/
theorem bmGet_eq_zero_iff (b : BmblockArray) (x : Nat) :
    bmGet b x = 0 ↔ (b.min ≤ x ∧ x ≤ b.max) ∧ ¬b.Marked x := by
  by_cases range : b.min ≤ x ∧ x ≤ b.max
  · rw [BmblockArray.Marked, bmGet_inside b range.1 range.2]
    split <;> simp [range]
  · rw [BmblockArray.Marked, bmGet_outside b range]
    simp [range]

/-- A fresh bitmap has the range asked for. -/
theorem bmAlloc_eq_some {min max : Nat} {b : BmblockArray} (allocated : bmAlloc min max = some b) :
    b.min = min ∧ b.max = max ∧ min ≤ max ∧ b.cursor = 0 ∧ ∀ x, ¬b.Marked x := by
  unfold bmAlloc at allocated
  split at allocated
  · contradiction
  · rename_i range
    obtain rfl := Option.some.inj allocated
    refine ⟨rfl, rfl, Nat.not_lt.mp range, rfl, fun x marked => ?_⟩
    have bounds := Marked.inside marked
    rw [BmblockArray.Marked, bmGet_inside _ bounds.1 bounds.2, List.getD_replicate] at marked
    · simp [Word.bit] at marked
    · have : (x - min) / bitsPerVector ≤ (max - min) / bitsPerVector :=
        Nat.div_le_div_right (Nat.sub_le_sub_right bounds.2 _)
      exact Nat.lt_succ_of_le this

/-- The words after one bit of one word is written, bit by bit. -/
theorem bit_written (b : BmblockArray) {x : Nat} (target : b.min ≤ x ∧ x ≤ b.max) {word : UInt64}
    {v : Bool} (written : ∀ j < bitsPerVector, Word.bit word j =
      if j = (x - b.min) % bitsPerVector then v
      else Word.bit (b.bm.get ⟨(x - b.min) / bitsPerVector, b.index_lt target.1 target.2⟩) j)
    (i : Nat) {j : Nat} (small : j < bitsPerVector) :
    Word.bit ((b.bm.set ((x - b.min) / bitsPerVector) word).getD i 0) j =
      if i = (x - b.min) / bitsPerVector ∧ j = (x - b.min) % bitsPerVector then v
      else Word.bit (b.bm.getD i 0) j := by
  have place := b.index_lt target.1 target.2
  rw [List.getD_eq_getElem?_getD, List.getD_eq_getElem?_getD, List.getElem?_set]
  by_cases same : (x - b.min) / bitsPerVector = i
  · rw [if_pos same, if_pos place, Option.getD_some, written j small, List.get_eq_getElem, ← same,
      List.getElem?_eq_getElem place, Option.getD_some]
    simp only [true_and]
  · rw [if_neg same, if_neg fun both => same both.1.symm]

/-- Two numbers of the range have the same word and the same place in it only if they are the
same. -/
theorem place_eq_iff {min x y : Nat} (lowX : min ≤ x) (lowY : min ≤ y) :
    ((y - min) / bitsPerVector = (x - min) / bitsPerVector ∧
      (y - min) % bitsPerVector = (x - min) % bitsPerVector) ↔ y = x := by
  simp only [bitsPerVector]
  omega

/-- Setting a bit keeps the range. -/
@[simp] theorem bmSet_min (b : BmblockArray) (x : Nat) : (bmSet b x).min = b.min := by
  unfold bmSet; split <;> rfl

/-- Setting a bit keeps the range. -/
@[simp] theorem bmSet_max (b : BmblockArray) (x : Nat) : (bmSet b x).max = b.max := by
  unfold bmSet; split <;> rfl

/-- Setting a bit keeps the cursor. -/
@[simp] theorem bmSet_cursor (b : BmblockArray) (x : Nat) : (bmSet b x).cursor = b.cursor := by
  unfold bmSet; split <;> rfl

/-- Setting a bit adds its number, when the range has it, and no other. -/
theorem marked_bmSet (b : BmblockArray) (x y : Nat) :
    (bmSet b x).Marked y ↔ b.Marked y ∨ (y = x ∧ b.min ≤ x ∧ x ≤ b.max) := by
  by_cases target : b.min ≤ x ∧ x ≤ b.max
  · by_cases range : b.min ≤ y ∧ y ≤ b.max
    · rw [BmblockArray.Marked, BmblockArray.Marked,
        bmGet_inside _ (by simpa using range.1) (by simpa using range.2),
        bmGet_inside b range.1 range.2]
      simp only [bmSet, dif_pos target]
      rw [bit_written b target (v := true) (fun j small => by
        rw [Word.bit_or_shift _ (Nat.mod_lt _ (by decide))]
        split <;> simp_all) _ (Nat.mod_lt _ (by decide))]
      simp only [place_eq_iff target.1 range.1]
      by_cases same : y = x
      · simp [same, target]
      · simp [same]
    · constructor
      · intro marked
        exact absurd (by simpa using Marked.inside marked) range
      · rintro (marked | ⟨rfl, -⟩)
        · exact absurd (Marked.inside marked) range
        · exact absurd target range
  · simp [bmSet, target]

/-- Clearing a bit keeps the range. -/
@[simp] theorem bmClear_min (b : BmblockArray) (x : Nat) : (bmClear b x).min = b.min := by
  unfold bmClear; split <;> rfl

/-- Clearing a bit keeps the range. -/
@[simp] theorem bmClear_max (b : BmblockArray) (x : Nat) : (bmClear b x).max = b.max := by
  unfold bmClear; split <;> rfl

/-- Clearing a bit removes its number and no other. -/
theorem marked_bmClear (b : BmblockArray) (x y : Nat) :
    (bmClear b x).Marked y ↔ b.Marked y ∧ y ≠ x := by
  by_cases target : b.min ≤ x ∧ x ≤ b.max
  · by_cases range : b.min ≤ y ∧ y ≤ b.max
    · rw [BmblockArray.Marked, BmblockArray.Marked,
        bmGet_inside _ (by simpa using range.1) (by simpa using range.2),
        bmGet_inside b range.1 range.2]
      simp only [bmClear, dif_pos target]
      rw [bit_written b target (v := false) (fun j small => by
        rw [Word.bit_and_not_shift _ (Nat.mod_lt _ (by decide)) small]
        split <;> simp_all) _ (Nat.mod_lt _ (by decide))]
      simp only [place_eq_iff target.1 range.1]
      by_cases same : y = x
      · simp [same]
      · simp [same]
    · constructor
      · intro marked
        exact absurd (by simpa using Marked.inside marked) range
      · rintro ⟨marked, -⟩
        exact absurd (Marked.inside marked) range
  · have same : bmClear b x = b := dif_neg target
    rw [same, iff_self_and]
    rintro marked rfl
    exact target (Marked.inside marked)

/-- Moving the cursor changes no bit. -/
@[simp] theorem bmGet_bmMoveTo (b : BmblockArray) (start i x : Nat) :
    bmGet (bmMoveTo b start i) x = bmGet b x := rfl

/-- A number found in a word has a clear bit. -/
theorem bmFindInWord_some {b : BmblockArray} {x : Nat} (found : bmFindInWord b = some x) :
    bmGet b x = 0 := by
  unfold bmFindInWord at found
  split at found
  · simp only [Option.map_eq_some_iff] at found
    obtain ⟨j, found, rfl⟩ := found
    simpa using List.find?_some found
  · contradiction

/-- A number found in a word lies there. -/
theorem bmFindInWord_word {b : BmblockArray} {x : Nat} (found : bmFindInWord b = some x) :
    (x - b.min) / bitsPerVector = b.cursor := by
  unfold bmFindInWord at found
  split at found
  · simp only [Option.map_eq_some_iff] at found
    obtain ⟨j, found, rfl⟩ := found
    have small := List.mem_range.mp (List.mem_of_find?_eq_some found)
    simp only [bitsPerVector] at small ⊢
    omega
  · contradiction

/-- A word in which nothing is found has no clear bit in the range. -/
theorem bmFindInWord_none {b : BmblockArray} (missing : bmFindInWord b = none) {x : Nat}
    (word : (x - b.min) / bitsPerVector = b.cursor) : bmGet b x ≠ 0 := by
  intro clear
  obtain ⟨range, -⟩ := (bmGet_eq_zero_iff b x).mp clear
  have place := b.index_lt range.1 range.2
  have offset : (x - b.min) % bitsPerVector < bitsPerVector := Nat.mod_lt _ (by decide)
  have number : b.cursor * bitsPerVector + (x - b.min) % bitsPerVector + b.min = x := by
    simp only [bitsPerVector] at word ⊢
    omega
  unfold bmFindInWord at missing
  split at missing
  · simp only [Option.map_eq_none_iff, List.find?_eq_none, List.mem_range,
      decide_eq_true_eq] at missing
    have := missing _ offset
    rw [number] at this
    exact this clear
  · rename_i full
    -- a word of ones has no clear bit at all
    rw [Lib.Word.ne_allOnes_iff] at full
    rw [bmGet_inside b range.1 range.2, List.getD_eq_getElem _ _ place] at clear
    apply full
    refine ⟨(x - b.min) % bitsPerVector, offset, ?_⟩
    simp only [List.get_eq_getElem, ← word]
    by_contra set
    simp [set] at clear

/-- In a word, the search finds the first clear bit. -/
theorem bmFindInWord_least {b : BmblockArray} {x y : Nat} (found : bmFindInWord b = some x)
    (clear : bmGet b y = 0) (word : (y - b.min) / bitsPerVector = b.cursor) : x ≤ y := by
  obtain ⟨range, -⟩ := (bmGet_eq_zero_iff b y).mp clear
  have number : b.cursor * bitsPerVector + (y - b.min) % bitsPerVector + b.min = y := by
    simp only [bitsPerVector] at word ⊢
    omega
  unfold bmFindInWord at found
  split at found
  · simp only [Option.map_eq_some_iff] at found
    obtain ⟨j, found, rfl⟩ := found
    rw [List.find?_range_eq_some] at found
    by_contra later
    have missed := found.2.2 ((y - b.min) % bitsPerVector) (by omega)
    rw [number] at missed
    simp [clear] at missed
  · contradiction

/-- The outer loop changes no word. -/
theorem bmFindFrom_bm (start : Nat) {count i : Nat} {b b' : BmblockArray} {r : Int}
    (run : bmFindFrom start count i b = (r, b')) : b'.bm = b.bm := by
  induction count generalizing i b with
  | zero =>
    rw [bmFindFrom, Prod.mk.injEq] at run
    rw [run.2]
  | succ count ih =>
    simp only [bmFindFrom] at run
    cases found : bmFindInWord (bmMoveTo b start i) with
    | some x =>
      simp only [found, Prod.mk.injEq] at run
      rw [← run.2]
      rfl
    | none =>
      simp only [found] at run
      exact (ih run).trans rfl

/-- `bm_find_next` changes no word. -/
theorem bmFindNext_bm (b : BmblockArray) : (bmFindNext b).2.bm = b.bm := bmFindFrom_bm _ rfl

/-- What the outer loop leaves alone, and what its result says about the words visited: it stops at
the first one with a clear bit, and returns the first number there. -/
theorem bmFindFrom_spec (start : Nat) : ∀ (count i : Nat) (b b' : BmblockArray) (r : Int),
    bmFindFrom start count i b = (r, b') → b'.SameBits b ∧
      ((∃ k < count, ∃ x : Nat, r = toInt32 x ∧ bmGet b x = 0 ∧
          (x - b.min) / bitsPerVector = (start + (i + k)) % b.length ∧
          (∀ y, bmGet b y = 0 → (y - b.min) / bitsPerVector = (x - b.min) / bitsPerVector →
            x ≤ y) ∧
          ∀ j < k, ∀ y, bmGet b y = 0 →
            (y - b.min) / bitsPerVector ≠ (start + (i + j)) % b.length) ∨
        (r = errBitmapFull ∧ ∀ k < count, ∀ x, bmGet b x = 0 →
          (x - b.min) / bitsPerVector ≠ (start + (i + k)) % b.length))
  | 0, i, b, b', r, run => by
    simp only [bmFindFrom, Prod.mk.injEq] at run
    obtain ⟨rfl, rfl⟩ := run
    exact ⟨⟨rfl, rfl, fun _ => rfl⟩, .inr ⟨rfl, fun k small => absurd small (by omega)⟩⟩
  | count + 1, i, b, b', r, run => by
    simp only [bmFindFrom] at run
    cases found : bmFindInWord (bmMoveTo b start i) with
    | some x =>
      simp only [found, Prod.mk.injEq] at run
      obtain ⟨rfl, rfl⟩ := run
      have clear := bmFindInWord_some found
      have word := bmFindInWord_word found
      refine ⟨⟨rfl, rfl, fun _ => rfl⟩, .inl ⟨0, Nat.succ_pos _, x, rfl, clear, word, ?_, ?_⟩⟩
      · intro y free same
        exact bmFindInWord_least found free (same.trans word)
      · intro j small
        exact absurd small (Nat.not_lt_zero j)
    | none =>
      simp only [found] at run
      obtain ⟨same, rest⟩ := bmFindFrom_spec start count (i + 1) _ _ _ run
      -- the word just visited has no clear bit
      have missed : ∀ y, bmGet b y = 0 →
          (y - b.min) / bitsPerVector ≠ (start + (i + 0)) % b.length :=
        fun y free word => bmFindInWord_none found word free
      have shifted : ∀ k, start + (i + 1 + k) = start + (i + (k + 1)) := by
        intro k
        omega
      have next : ∀ k, (∀ j < k, ∀ y, bmGet b y = 0 →
          (y - b.min) / bitsPerVector ≠ (start + (i + 1 + j)) % b.length) →
          ∀ j < k + 1, ∀ y, bmGet b y = 0 →
            (y - b.min) / bitsPerVector ≠ (start + (i + j)) % b.length := by
        intro k others j small
        cases j with
        | zero => exact missed
        | succ j =>
          rw [← shifted]
          exact others j (Nat.lt_of_succ_lt_succ small)
      refine ⟨⟨same.min, same.max, same.get⟩, ?_⟩
      rcases rest with ⟨k, inside, x, value, free, word, least, before⟩ | ⟨full, visited⟩
      · refine .inl ⟨k + 1, Nat.succ_lt_succ inside, x, value, free, ?_, least, next k before⟩
        rw [← shifted]
        exact word
      · exact .inr ⟨full, next count visited⟩

/-- Where the bit of a number lies is a word of the array. -/
theorem BmblockArray.word_lt (b : BmblockArray) {x : Nat} (clear : bmGet b x = 0) :
    (x - b.min) / bitsPerVector < b.length := by
  obtain ⟨range, -⟩ := (bmGet_eq_zero_iff b x).mp clear
  rw [← b.words]
  exact b.index_lt range.1 range.2

/-- `bm_find_next` changes no bit, and returns the first number with a clear bit, going around from
the word of the cursor, or finds none. -/
theorem bmFindNext_first {b b' : BmblockArray} {r : Int} (run : bmFindNext b = (r, b')) :
    b'.SameBits b ∧ ((∃ x : Nat, FirstAround b.length b.cursor
          (fun y => (y - b.min) / bitsPerVector) (fun y => bmGet b y = 0) x ∧ r = toInt32 x) ∨
      (r = errBitmapFull ∧ ∀ x, bmGet b x ≠ 0)) := by
  obtain ⟨same, ⟨k, turn, x, value, free, word, least, before⟩ | ⟨full, visited⟩⟩ :=
    bmFindFrom_spec _ _ _ _ _ _ run
  · simp only [Nat.zero_add] at word before
    exact ⟨same, .inl ⟨x, .of_search b.inside turn (fun y clear => b.word_lt clear) before free
      word least, value⟩⟩
  · refine ⟨same, .inr ⟨full, fun x clear => ?_⟩⟩
    have reach := step_around b.inside (b.word_lt clear)
    apply visited _ (around_lt b.inside _) x clear
    rw [Nat.zero_add, reach]

/-- `bm_find_next` changes no bit, and returns a number with a clear bit or finds none. -/
theorem bmFindNext_spec {b b' : BmblockArray} {r : Int} (run : bmFindNext b = (r, b')) :
    b'.SameBits b ∧ ((∃ x, bmGet b x = 0 ∧ r = toInt32 x) ∨
      (r = errBitmapFull ∧ ∀ x, bmGet b x ≠ 0)) := by
  obtain ⟨same, ⟨x, first, value⟩ | full⟩ := bmFindNext_first run
  · exact ⟨same, .inl ⟨x, first.1, value⟩⟩
  · exact ⟨same, .inr full⟩

/-- The outer loop stops at the word where it finds a number. -/
theorem bmFindFrom_found (start : Nat) {count i : Nat} {b b' : BmblockArray} {r : Int}
    (run : bmFindFrom start count i b = (r, b')) (found : 0 ≤ r) :
    ∃ x, bmFindInWord b' = some x ∧ r = toInt32 x := by
  induction count generalizing i b with
  | zero =>
    simp only [bmFindFrom, Prod.mk.injEq] at run
    rw [← run.1] at found
    contradiction
  | succ count ih =>
    simp only [bmFindFrom] at run
    cases word : bmFindInWord (bmMoveTo b start i) with
    | some x =>
      simp only [word, Prod.mk.injEq] at run
      refine ⟨x, ?_, run.1.symm⟩
      rw [← run.2]
      exact word
    | none =>
      simp only [word] at run
      exact ih run

/-- A search that finds a number finds it again, since no bit is set. -/
theorem bmFindNext_again {b b' : BmblockArray} {r : Int} (run : bmFindNext b = (r, b'))
    (found : 0 ≤ r) : bmFindNext b' = (r, b') := by
  rw [bmFindNext] at run
  obtain ⟨x, word, value⟩ := bmFindFrom_found _ run found
  have stays : bmMoveTo b' b'.cursor 0 = b' := by
    have cursor : (b'.cursor + 0) % b'.length = b'.cursor := Nat.mod_eq_of_lt b'.inside
    simp only [bmMoveTo, cursor]
  obtain ⟨count, length⟩ : ∃ count, b'.length = count + 1 :=
    Nat.exists_eq_succ_of_ne_zero (Nat.ne_of_gt (Nat.lt_of_le_of_lt (Nat.zero_le _) b'.inside))
  simp only [bmFindNext, length, bmFindFrom, stays, word, value]

/-- The outer loop, entered with every clear bit in the words it has still to visit before the
end of the array: it finds the smallest number whose bit is clear. -/
theorem bmFindFrom_least (start : Nat) : ∀ (count i : Nat) (b b' : BmblockArray) (r : Int),
    b.length ≤ start + i + count → (∀ y, bmGet b y = 0 → start + i ≤ (y - b.min) / bitsPerVector) →
    bmFindFrom start count i b = (r, b') → b'.Swept ∧
      ∀ y, bmGet b y = 0 → ∃ x : Nat, r = toInt32 x ∧ bmGet b x = 0 ∧ ∀ z, bmGet b z = 0 → x ≤ z
  | 0, i, b, b', r, enough, lower, run => by
    simp only [bmFindFrom, Prod.mk.injEq] at run
    obtain ⟨rfl, rfl⟩ := run
    have full : ∀ y, bmGet b y ≠ 0 := fun y clear => by
      obtain ⟨range, -⟩ := (bmGet_eq_zero_iff b y).mp clear
      have place := b.index_lt range.1 range.2
      have := b.words
      have := lower y clear
      omega
    exact ⟨fun y clear => absurd clear (full y), fun y clear => absurd clear (full y)⟩
  | count + 1, i, b, b', r, enough, lower, run => by
    simp only [bmFindFrom] at run
    have low : (start + i) % b.length ≤ start + i := Nat.mod_le _ _
    cases found : bmFindInWord (bmMoveTo b start i) with
    | some x =>
      simp only [found, Prod.mk.injEq] at run
      obtain ⟨rfl, rfl⟩ := run
      have hit := bmFindInWord_some found
      refine ⟨fun y clear => Nat.le_trans low (lower y clear), fun _ _ =>
        ⟨x, rfl, hit, fun z clear => ?_⟩⟩
      rcases Nat.eq_or_lt_of_le (Nat.le_trans low (lower z clear)) with same | later
      · exact bmFindInWord_least found clear same.symm
      · -- the word of `x` is the one visited, and the word of `z` comes after it
        have here := bmFindInWord_word found
        have cursor : (bmMoveTo b start i).cursor = (start + i) % b.length := rfl
        have min : (bmMoveTo b start i).min = b.min := rfl
        rw [cursor, min] at here
        simp only [bitsPerVector] at here later
        omega
    | none =>
      simp only [found] at run
      refine bmFindFrom_least start count (i + 1) (bmMoveTo b start i) b' r
        (by simpa [bmMoveTo] using by omega) (fun y clear => ?_) run
      have reached := lower y clear
      have missed : (y - b.min) / bitsPerVector ≠ (start + i) % b.length :=
        fun word => bmFindInWord_none found word clear
      by_cases inside : start + i < b.length
      · rw [Nat.mod_eq_of_lt inside] at missed
        exact Nat.lt_of_le_of_ne reached (Ne.symm missed)
      · obtain ⟨range, -⟩ := (bmGet_eq_zero_iff b y).mp clear
        have place := b.index_lt range.1 range.2
        have := b.words
        omega

/-- From a swept bitmap the search finds the smallest number whose bit is clear. -/
theorem bmFindNext_least {b b' : BmblockArray} {r : Int} (swept : b.Swept)
    (run : bmFindNext b = (r, b')) : b'.Swept ∧
      ∀ y, bmGet b y = 0 → ∃ x : Nat, r = toInt32 x ∧ bmGet b x = 0 ∧ ∀ z, bmGet b z = 0 → x ≤ z :=
  bmFindFrom_least _ _ _ _ _ _ (by omega) (fun y clear => swept y clear) run

/-- Bitmaps with the same bits mark the same numbers. -/
theorem BmblockArray.SameBits.marked {left right : BmblockArray} (same : left.SameBits right)
    (x : Nat) : left.Marked x ↔ right.Marked x := by
  rw [BmblockArray.Marked, BmblockArray.Marked, same.get]

/-- Bitmaps over one range that mark the same numbers have the same bits. -/
theorem BmblockArray.SameBits.of_marked {left right : BmblockArray} (min : left.min = right.min)
    (max : left.max = right.max) (marked : ∀ x, left.Marked x ↔ right.Marked x) :
    left.SameBits right := by
  refine ⟨min, max, fun x => ?_⟩
  by_cases set : left.Marked x
  · exact set.trans ((marked x).mp set).symm
  · have other := mt (marked x).mpr set
    by_cases range : left.min ≤ x ∧ x ≤ left.max
    · rw [(bmGet_eq_zero_iff left x).mpr ⟨range, set⟩,
        (bmGet_eq_zero_iff right x).mpr ⟨min ▸ max ▸ range, other⟩]
    · rw [bmGet_outside left range, bmGet_outside right (min ▸ max ▸ range)]

/-- `after` is `before` with the bits of some numbers set, those of them that the range has. -/
structure BmblockArray.Adds (before after : BmblockArray) (numbers : Set Nat) : Prop where
  /-- The ranges start together. -/
  min : after.min = before.min
  /-- The ranges end together. -/
  max : after.max = before.max
  /-- The search will start at the same word. -/
  cursor : after.cursor = before.cursor
  /-- Exactly the given numbers are added. -/
  marked : ∀ x, after.Marked x ↔
    before.Marked x ∨ (x ∈ numbers ∧ before.min ≤ x ∧ x ≤ before.max)

namespace BmblockArray.Adds

/-- A bitmap adds nothing to itself. -/
protected theorem refl (b : BmblockArray) : b.Adds b ∅ := ⟨rfl, rfl, rfl, by simp⟩

/-- `bm_set` adds its number. -/
theorem bmSet (b : BmblockArray) (x : Nat) : b.Adds (bmSet b x) {x} := by
  refine ⟨bmSet_min b x, bmSet_max b x, bmSet_cursor b x, fun y => ?_⟩
  rw [marked_bmSet, Set.mem_singleton_iff]
  constructor <;> rintro (marked | ⟨rfl, range⟩)
  all_goals first
    | exact .inl marked
    | exact .inr ⟨rfl, range⟩

/-- One addition after another adds both sets. -/
protected theorem trans {b b' b'' : BmblockArray} {xs ys : Set Nat} (first : b.Adds b' xs)
    (second : b'.Adds b'' ys) : b.Adds b'' (xs ∪ ys) := by
  refine ⟨second.min.trans first.min, second.max.trans first.max,
    second.cursor.trans first.cursor, fun x => ?_⟩
  rw [second.marked, first.marked, first.min, first.max, Set.mem_union]
  tauto

/-- Sets with the same numbers are added alike. -/
protected theorem congr {b b' : BmblockArray} {xs ys : Set Nat} (adds : b.Adds b' xs)
    (same : ∀ x, x ∈ xs ↔ x ∈ ys) : b.Adds b' ys :=
  Set.ext same ▸ adds

/-- Setting more bits keeps a bitmap swept. -/
theorem swept {b b' : BmblockArray} {xs : Set Nat} (adds : b.Adds b' xs) (before : b.Swept) :
    b'.Swept := by
  intro x clear
  obtain ⟨range, free⟩ := (bmGet_eq_zero_iff b' x).mp clear
  rw [adds.min, adds.max] at range
  rw [adds.cursor, adds.min]
  exact before x ((bmGet_eq_zero_iff b x).mpr
    ⟨range, fun marked => free ((adds.marked x).mpr (.inl marked))⟩)

end BmblockArray.Adds

end U6fs
