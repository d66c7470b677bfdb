import Mathlib.Data.Finset.Basic
import U6fs.Bmblock
import U6fs.Lib.Fold

/-!
# Bitmaps as sets

A bitmap stands for a finite set of numbers of its range: setting and clearing bits insert and
erase, a search changes nothing, and what a bit reads is decided by the last call that wrote it.
The search finds the first number that is missing, in the order that starts with the word of the
cursor and goes around.
-/
namespace U6fs

open Lib BmblockArray

/-- The calls that change a bitmap. -/
inductive BmCall where
  /-- `bm_set`. -/
  | set (x : Nat)
  /-- `bm_clear`. -/
  | clear (x : Nat)
  /-- `bm_find_next`. -/
  | findNext
deriving DecidableEq

/-- The bitmap after a call. -/
def BmCall.run (b : BmblockArray) : BmCall → BmblockArray
  | set x => bmSet b x
  | clear x => bmClear b x
  | findNext => (bmFindNext b).2

/-- The bitmap after some calls. -/
def BmblockArray.after (b : BmblockArray) (calls : List BmCall) : BmblockArray :=
  calls.foldl BmCall.run b

/-- What a call does to a set of numbers between `min` and `max`. -/
def BmCall.apply (min max : Nat) (numbers : Finset Nat) : BmCall → Finset Nat
  | set x => if min ≤ x ∧ x ≤ max then insert x numbers else numbers
  | clear x => numbers.erase x
  | findNext => numbers

/-- What a call writes to the bit of a number. -/
def BmCall.writes (x : Nat) : BmCall → Option Bool
  | set y => if y = x then some true else none
  | clear y => if y = x then some false else none
  | findNext => none

/-- What was last written to the bit of a number. -/
def lastWritten (calls : List BmCall) (x : Nat) : Bool :=
  (calls.filterMap (BmCall.writes x)).getLast?.getD false

section Numbers

variable {min max : Nat} (numbers : Finset Nat) {x : Nat}

/-- In the range, a number is in the set when it was, unless the call writes it. -/
theorem mem_apply (range : min ≤ x ∧ x ≤ max) (call : BmCall) :
    decide (x ∈ call.apply min max numbers) = (call.writes x).getD (decide (x ∈ numbers)) := by
  cases call with
  | set y =>
    by_cases same : y = x
    · simp [BmCall.apply, BmCall.writes, same, range]
    · by_cases inside : min ≤ y ∧ y ≤ max
      · simp [BmCall.apply, BmCall.writes, same, inside, Ne.symm same]
      · simp [BmCall.apply, BmCall.writes, same, inside]
  | clear y =>
    by_cases same : y = x
    · simp [BmCall.apply, BmCall.writes, same]
    · simp [BmCall.apply, BmCall.writes, same, Ne.symm same]
  | findNext => rfl

/-- After some calls the last one that writes a number decides. -/
theorem mem_foldl_apply (range : min ≤ x ∧ x ≤ max) (calls : List BmCall) :
    decide (x ∈ calls.foldl (BmCall.apply min max) ∅) = lastWritten calls x := by
  have all : ∀ numbers : Finset Nat, decide (x ∈ calls.foldl (BmCall.apply min max) numbers) =
      calls.foldl (fun held call => (call.writes x).getD held) (decide (x ∈ numbers)) := by
    induction calls with
    | nil => exact fun _ => rfl
    | cons call calls ih =>
      intro numbers
      rw [List.foldl_cons, List.foldl_cons, ih, mem_apply numbers range]
  rw [all, foldl_register, lastWritten]
  rfl

end Numbers

/-- A bitmap has a range, the bits of some numbers set, and none behind the range. -/
structure Represents (b : BmblockArray) (min max : Nat) (numbers : Finset Nat) : Prop where
  /-- The range starts there. -/
  low : b.min = min
  /-- The range ends there. -/
  high : b.max = max
  /-- The marked numbers are those of the set. -/
  marked : ∀ x, b.Marked x ↔ x ∈ numbers
  /-- The bits behind the range are clear. -/
  behind : ∀ i j, j < bitsPerVector → max < min + bitsPerVector * i + j →
    Word.bit (b.bm.getD i 0) j = false

/-- A fresh bitmap stands for the empty set. -/
theorem bmAlloc_represents {min max : Nat} (range : min ≤ max) :
    ∃ b, bmAlloc min max = some b ∧ b.cursor = 0 ∧ Represents b min max ∅ := by
  have allocated : bmAlloc min max = some _ := dif_neg (Nat.not_lt.mpr range)
  obtain ⟨low, high, -, cursor, none⟩ := bmAlloc_eq_some allocated
  refine ⟨_, allocated, cursor, low, high, fun x => ?_, fun i j _ _ => ?_⟩
  · exact iff_of_false (none x) (Finset.notMem_empty x)
  · rw [List.getD_eq_getElem?_getD, List.getElem?_replicate]
    split
    · exact Nat.zero_testBit j
    · exact Nat.zero_testBit j

section Calls

variable {b : BmblockArray} {min max : Nat} {numbers : Finset Nat}

/-- Writing a bit of the range leaves the bits behind it clear. -/
theorem Represents.written (represents : Represents b min max numbers) {x : Nat}
    (target : b.min ≤ x ∧ x ≤ b.max) {word : UInt64} {v : Bool}
    (written : ∀ j < bitsPerVector, Word.bit word j =
      if j = (x - b.min) % bitsPerVector then v
      else Word.bit (b.bm.get ⟨(x - b.min) / bitsPerVector, b.index_lt target.1 target.2⟩) j)
    (i j : Nat) (small : j < bitsPerVector) (high : max < min + bitsPerVector * i + j) :
    Word.bit ((b.bm.set ((x - b.min) / bitsPerVector) word).getD i 0) j = false := by
  rw [bit_written b target written i small, if_neg]
  · exact represents.behind i j small high
  · rintro ⟨place, slot⟩
    rw [represents.low, represents.high] at target
    rw [represents.low] at place slot
    simp only [bitsPerVector] at place slot high
    omega

/-- A call does to the bits what it does to the set. -/
theorem Represents.step (represents : Represents b min max numbers) (call : BmCall) :
    Represents (call.run b) min max (call.apply min max numbers) := by
  have low := represents.low
  have high := represents.high
  cases call with
  | set x =>
    refine ⟨(bmSet_min b x).trans low, (bmSet_max b x).trans high, fun y => ?_, ?_⟩
    · rw [BmCall.run, marked_bmSet, represents.marked, BmCall.apply, low, high]
      split
      · rename_i inside
        rw [Finset.mem_insert, and_iff_left inside, or_comm]
      · rename_i outside
        rw [or_iff_left fun both => outside both.2]
    · rw [BmCall.run]
      by_cases target : b.min ≤ x ∧ x ≤ b.max
      · rw [bmSet, dif_pos target]
        apply represents.written target (v := true)
        intro j small
        rw [Word.bit_or_shift _ (Nat.mod_lt _ (by decide))]
        split <;> simp_all
      · rw [bmSet, dif_neg target]
        exact represents.behind
  | clear x =>
    refine ⟨(bmClear_min b x).trans low, (bmClear_max b x).trans high, fun y => ?_, ?_⟩
    · rw [BmCall.run, marked_bmClear, represents.marked, BmCall.apply, Finset.mem_erase, and_comm]
    · rw [BmCall.run]
      by_cases target : b.min ≤ x ∧ x ≤ b.max
      · rw [bmClear, dif_pos target]
        apply represents.written target (v := false)
        intro j small
        rw [Word.bit_and_not_shift _ (Nat.mod_lt _ (by decide)) small]
        split <;> simp_all
      · rw [bmClear, dif_neg target]
        exact represents.behind
  | findNext =>
    obtain ⟨same, -⟩ := bmFindNext_spec (Prod.mk.eta (p := bmFindNext b)).symm
    refine ⟨same.min.trans low, same.max.trans high, fun y => ?_, ?_⟩
    · rw [BmCall.run, same.marked, represents.marked, BmCall.apply]
    · rw [BmCall.run, bmFindNext_bm]
      exact represents.behind

/-- So do any number of calls. -/
theorem Represents.run (represents : Represents b min max numbers) (calls : List BmCall) :
    Represents (b.after calls) min max (calls.foldl (BmCall.apply min max) numbers) := by
  induction calls generalizing b numbers with
  | nil => exact represents
  | cons call calls ih => exact ih (represents.step call)

end Calls

section Results

variable {min max : Nat}

/-- A bitmap is a finite set of numbers of its range, whatever calls are made: the last call that
writes a bit decides what it reads, numbers outside have no bit and change nothing, the words used
are there, and the bits behind the range stay clear. -/
theorem bmAlloc_isSet (range : min ≤ max) :
    ∃ b₀, bmAlloc min max = some b₀ ∧ ∀ calls,
      (∀ x, bmGet (b₀.after calls) x =
        if min ≤ x ∧ x ≤ max then if lastWritten calls x then 1 else 0 else errBadParameter) ∧
      (∀ x, ¬(min ≤ x ∧ x ≤ max) → bmSet (b₀.after calls) x = b₀.after calls ∧
        bmClear (b₀.after calls) x = b₀.after calls) ∧
      (∀ x, min ≤ x → x ≤ max → (x - min) / bitsPerVector < (b₀.after calls).bm.length) ∧
      ∀ i j, j < bitsPerVector → max < min + bitsPerVector * i + j →
        Word.bit ((b₀.after calls).bm.getD i 0) j = false := by
  obtain ⟨b₀, allocated, -, fresh⟩ := bmAlloc_represents range
  refine ⟨b₀, allocated, fun calls => ?_⟩
  have represents := fresh.run calls
  have low := represents.low
  have high := represents.high
  refine ⟨fun x => ?_, fun x outside => ?_, fun x above below => ?_, represents.behind⟩
  · by_cases inside : min ≤ x ∧ x ≤ max
    · have member := mem_foldl_apply inside calls
      rw [if_pos inside, ← member]
      by_cases mem : x ∈ calls.foldl (BmCall.apply min max) ∅
      · rw [if_pos (decide_eq_true mem)]
        exact (represents.marked x).mpr mem
      · rw [if_neg (by simpa using mem), bmGet_eq_zero_iff, low, high, represents.marked]
        exact ⟨inside, mem⟩
    · rw [if_neg inside]
      apply bmGet_outside
      rw [low, high]
      exact inside
  · rw [← low, ← high] at outside
    exact ⟨dif_neg outside, dif_neg outside⟩
  · rw [← low]
    exact (b₀.after calls).index_lt (low ▸ above) (high ▸ below)

/-- In a range of two words, of two numbers that are set one is cleared again. -/
theorem bmAlloc_isSet_twoWords :
    ∃ b₀, bmAlloc 5 80 = some b₀ ∧
      bmGet (b₀.after [.set 80, .set 7, .findNext, .clear 7]) 80 = 1 ∧
      bmGet (b₀.after [.set 80, .set 7, .findNext, .clear 7]) 7 = 0 := by
  obtain ⟨b₀, allocated, calls⟩ := bmAlloc_isSet (show 5 ≤ 80 by decide)
  have reads := (calls [.set 80, .set 7, .findNext, .clear 7]).1
  exact ⟨b₀, allocated, reads 80, reads 7⟩

/-- A search of a bitmap finds the first number of the range that is missing, in the order that
starts with the word of the cursor and goes around, and fails exactly when none is missing. What it
finds in a word is in the range, it changes no bit, and the cursor stays inside. -/
structure FindsFirst (b : BmblockArray) (r : Int) (b' : BmblockArray) : Prop where
  /-- The first missing number is returned. -/
  first : ∀ y, bmGet b y = 0 → ∃ x : Nat, r = x ∧ (b.min ≤ x ∧ x ≤ b.max) ∧
    FirstAround b.length b.cursor (fun y => (y - b.min) / bitsPerVector)
      (fun y => bmGet b y = 0) x
  /-- The search fails when all bits are set, and only then. -/
  full : r = errBitmapFull ↔ ∀ x, b.min ≤ x → x ≤ b.max → b.Marked x
  /-- The assertion holds for what is found in any word. -/
  assertion : ∀ i bit, bmFindInWord (bmMoveTo b b.cursor i) = some bit → bit ≤ b.max ∧ b.min ≤ bit
  /-- No bit changes. -/
  same : b'.SameBits b
  /-- The cursor is a word index. -/
  cursor : b'.cursor < b'.length

/-- In a range of `int` numbers every search finds the first missing number. -/
theorem bmFindNext_findsFirst {b : BmblockArray} (int : b.max < 2 ^ 31) :
    FindsFirst b (bmFindNext b).1 (bmFindNext b).2 := by
  have clear : ∀ y, bmGet b y = 0 → b.min ≤ y ∧ y ≤ b.max := fun y free =>
    ((bmGet_eq_zero_iff b y).mp free).1
  have number : ∀ y, bmGet b y = 0 → toInt32 y = y := fun y free =>
    toInt32_of_small (Nat.lt_of_le_of_lt (clear y free).2 int)
  have marked : (∀ y, bmGet b y ≠ 0) ↔ ∀ x, b.min ≤ x → x ≤ b.max → b.Marked x := by
    constructor
    · intro none x low high
      by_contra free
      exact none x ((bmGet_eq_zero_iff b x).mpr ⟨⟨low, high⟩, free⟩)
    · intro all y free
      obtain ⟨⟨low, high⟩, unset⟩ := (bmGet_eq_zero_iff b y).mp free
      exact unset (all y low high)
  obtain ⟨same, found⟩ := bmFindNext_first (Prod.mk.eta (p := bmFindNext b)).symm
  constructor
  case first =>
    intro y free
    rcases found with ⟨x, first, value⟩ | ⟨-, none⟩
    · exact ⟨x, value.trans (number x first.1), clear x first.1, first⟩
    · exact absurd free (none y)
  case full =>
    rw [← marked]
    rcases found with ⟨x, first, value⟩ | ⟨value, none⟩
    · rw [value, number x first.1]
      constructor
      · intro negative
        have positive := Int.natCast_nonneg x
        rw [negative] at positive
        contradiction
      · intro none
        exact absurd first.1 (none x)
    · exact iff_of_true value none
  case assertion =>
    intro i bit hit
    exact (clear bit ((bmGet_bmMoveTo b b.cursor i bit).symm.trans (bmFindInWord_some hit))).symm
  case same => exact same
  case cursor => exact (bmFindNext b).2.inside

/-- After any calls on a fresh bitmap over a range of `int` numbers, a search finds the first
missing number. -/
theorem bmAlloc_findsFirst (range : min ≤ max) (int : max ≤ 2 ^ 31 - 1) :
    ∃ b₀, bmAlloc min max = some b₀ ∧ ∀ calls, (b₀.after calls).min = min ∧
      (b₀.after calls).max = max ∧ FindsFirst (b₀.after calls) (bmFindNext (b₀.after calls)).1
        (bmFindNext (b₀.after calls)).2 := by
  obtain ⟨b₀, allocated, -, fresh⟩ := bmAlloc_represents range
  refine ⟨b₀, allocated, fun calls => ?_⟩
  have represents := fresh.run calls
  refine ⟨represents.low, represents.high, bmFindNext_findsFirst ?_⟩
  rw [represents.high]
  omega

/-- In a range of two words, after the first number is set. -/
theorem bmAlloc_findsFirst_twoWords :
    ∃ b₀, bmAlloc 5 80 = some b₀ ∧ FindsFirst (b₀.after [.set 5])
      (bmFindNext (b₀.after [.set 5])).1 (bmFindNext (b₀.after [.set 5])).2 := by
  obtain ⟨b₀, allocated, calls⟩ :=
    bmAlloc_findsFirst (show 5 ≤ 80 by decide) (show 80 ≤ 2 ^ 31 - 1 by decide)
  exact ⟨b₀, allocated, (calls [.set 5]).2.2⟩

end Results

end U6fs
