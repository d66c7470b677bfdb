import Mathlib.Data.Nat.Bitwise
import Mathlib.Tactic.Common

/-!
# Bits of a machine word

Reading, setting and clearing one bit of a 64-bit word by shifts and masks, and the test that
a word has no clear bit left, stated as facts about the set of its one bits; the bits of its bytes,
and the word with given bits.
-/
namespace Lib.Word

/-- Bit `i` of a word is one. -/
def bit (word : UInt64) (i : Nat) : Bool := word.toNat.testBit i

/-- Shifting bit `i` down and masking it gives its value. -/
theorem shift_and_one (word : UInt64) {i : Nat} (small : i < 64) :
    ((word >>> i.toUInt64) &&& 1).toNat = if bit word i then 1 else 0 := by
  have place : i.toUInt64.toNat % 64 = i := by
    change i % 2 ^ 64 % 64 = i
    omega
  rw [UInt64.toNat_and, UInt64.toNat_shiftRight, place]
  change word.toNat >>> i &&& 1 = _
  rw [Nat.and_one_is_mod, bit, Nat.testBit_eq_decide_div_mod_eq, Nat.shiftRight_eq_div_pow]
  split <;> rename_i parity <;> simp only [decide_eq_true_eq] at parity <;> omega

/-- A single one bit at position `i`. -/
theorem bit_one_shift {i : Nat} (small : i < 64) (j : Nat) :
    bit (1 <<< i.toUInt64) j = decide (j = i) := by
  have place : i.toUInt64.toNat % 64 = i := by
    change i % 2 ^ 64 % 64 = i
    omega
  rw [bit, UInt64.toNat_shiftLeft, place]
  change ((1 <<< i) % 2 ^ 64).testBit j = _
  rw [Nat.testBit_mod_two_pow, Nat.one_shiftLeft, Nat.testBit_two_pow]
  by_cases same : i = j
  · subst same
    simp [small]
  · simp [same, Ne.symm same]

/-- Setting bit `i` adds it to the one bits. -/
theorem bit_or_shift (word : UInt64) {i : Nat} (small : i < 64) (j : Nat) :
    bit (word ||| (1 <<< i.toUInt64)) j = (bit word j || decide (j = i)) := by
  have single := bit_one_shift small j
  unfold bit at single ⊢
  rw [UInt64.toNat_or, Nat.testBit_or, single]

/-- Clearing bit `i` removes it from the one bits. -/
theorem bit_and_not_shift (word : UInt64) {i : Nat} (small : i < 64) {j : Nat} (inside : j < 64) :
    bit (word &&& ~~~(1 <<< i.toUInt64)) j = (bit word j && !decide (j = i)) := by
  have single := bit_one_shift small j
  have bound := (1 <<< i.toUInt64 : UInt64).toNat_lt
  unfold bit at single ⊢
  rw [UInt64.toNat_and, Nat.testBit_and, UInt64.toNat_not,
    show UInt64.size - 1 - (1 <<< i.toUInt64 : UInt64).toNat =
      2 ^ 64 - ((1 <<< i.toUInt64 : UInt64).toNat + 1) by simp only [UInt64.size]; omega,
    Nat.testBit_two_pow_sub_succ bound, single, decide_eq_true inside, Bool.true_and]

/-- A word differs from all ones exactly when one of its 64 bits is clear. -/
theorem ne_allOnes_iff (word : UInt64) : word ≠ -1 ↔ ∃ i < 64, bit word i = false := by
  constructor
  · intro differs
    by_contra full
    push Not at full
    apply differs
    apply UInt64.toNat_inj.mp
    apply Nat.eq_of_testBit_eq
    intro i
    change word.toNat.testBit i = (2 ^ 64 - 1).testBit i
    rw [Nat.testBit_two_pow_sub_one]
    by_cases small : i < 64
    · simpa [bit, small] using full i small
    · have high : word.toNat < 2 ^ i :=
        Nat.lt_of_lt_of_le word.toNat_lt (Nat.pow_le_pow_right (by decide) (by omega))
      simp [small, Nat.testBit_lt_two_pow high]
  · rintro ⟨i, small, clear⟩ rfl
    change (2 ^ 64 - 1).testBit i = false at clear
    rw [Nat.testBit_two_pow_sub_one] at clear
    simp [small] at clear

/-- Masking bit `k` of the byte that starts at a bit of a word. -/
theorem mask_byte (word : UInt64) {start k : Nat} (inside : start < 64) (small : k < 8) :
    ((word >>> start.toUInt64) &&& 0xff).toUInt8 &&& (1 <<< k.toUInt8) ≠ 0 ↔
      bit word (start + k) = true := by
  have place : start.toUInt64.toNat % 64 = start := by
    change start % 2 ^ 64 % 64 = start
    omega
  have place' : k.toUInt8.toNat % 8 = k := by
    change k % 2 ^ 8 % 8 = k
    omega
  have single : (1 <<< k.toUInt8 : UInt8).toNat = 2 ^ k := by
    rw [UInt8.toNat_shiftLeft, place']
    change (1 <<< k) % 2 ^ 8 = 2 ^ k
    rw [Nat.one_shiftLeft]
    exact Nat.mod_eq_of_lt (Nat.pow_lt_pow_right (by decide) small)
  have masked : (((word >>> start.toUInt64) &&& 0xff).toUInt8 &&& (1 <<< k.toUInt8)).toNat =
      (bit word (start + k)).toNat * 2 ^ k := by
    rw [UInt8.toNat_and, single, Nat.and_two_pow, UInt64.toNat_toUInt8, UInt64.toNat_and,
      UInt64.toNat_shiftRight, place]
    have read : ((word.toNat >>> start &&& (2 ^ 8 - 1)) % 2 ^ 8).testBit k =
        bit word (start + k) := by
      rw [Nat.testBit_mod_two_pow, Nat.testBit_and, Nat.testBit_two_pow_sub_one,
        Nat.testBit_shiftRight, decide_eq_true small, Bool.true_and, Bool.and_true, bit]
    rw [← read]
    rfl
  rw [ne_eq, ← UInt8.toNat_inj, masked]
  cases bit word (start + k) <;> simp

/-- The word with certain bits. -/
def ofBits (bits : Fin 64 → Bool) : UInt64 := UInt64.ofNat (Nat.ofBits bits)

/-- A word is that of its bits. -/
theorem ofBits_bit (word : UInt64) : ofBits (fun i => bit word i) = word := by
  apply UInt64.toNat_inj.mp
  rw [ofBits, UInt64.toNat_ofNat', Nat.mod_eq_of_lt (Nat.ofBits_lt_two_pow _)]
  apply Nat.eq_of_testBit_eq
  intro i
  rw [Nat.testBit_ofBits]
  by_cases small : i < 64
  · rw [dif_pos small, bit]
  · have high : word.toNat < 2 ^ i :=
      Nat.lt_of_lt_of_le word.toNat_lt (Nat.pow_le_pow_right (by decide) (by omega))
    rw [dif_neg small, Nat.testBit_lt_two_pow high]

end Lib.Word
