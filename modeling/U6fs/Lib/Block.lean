import Mathlib.Data.List.Basic
import Mathlib.Tactic.Common

/-!
# Byte blocks and windows

A block is a byte string whose length is part of its type. A window is the run of elements
of a list that starts at an offset; `Block.splice` overwrites a window, as `memcpy` into an
array does. The laws say which windows a splice changes: the spliced one holds the source,
every disjoint one is as before.
-/
namespace Lib

variable {α : Type}

/-- The `width` elements from offset `off` on, fewer when the list ends before. -/
def window (values : List α) (off width : Nat) : List α := (values.drop off).take width

/-- A window read by position. -/
theorem window_getElem? (values : List α) (off width i : Nat) :
    (window values off width)[i]? = if i < width then values[off + i]? else none := by
  simp only [window, List.getElem?_take, List.getElem?_drop]

/-- A window inside the list has its full width. -/
theorem window_length {values : List α} {off width : Nat} (inside : off + width ≤ values.length) :
    (window values off width).length = width := by
  simp only [window, List.length_take, List.length_drop]
  omega

/-- A window of the first of two lists. -/
theorem window_append_left {first : List α} (second : List α) {off width : Nat}
    (inside : off + width ≤ first.length) :
    window (first ++ second) off width = window first off width := by
  apply List.ext_getElem?
  intro i
  rw [window_getElem?, window_getElem?]
  split
  · exact List.getElem?_append_left (by omega)
  · rfl

/-- A window of the second of two lists. -/
theorem window_append_right (first second : List α) (off width : Nat) :
    window (first ++ second) (first.length + off) width = window second off width := by
  apply List.ext_getElem?
  intro i
  rw [window_getElem?, window_getElem?]
  split
  · rw [Nat.add_assoc]
    exact (List.getElem?_append_right (Nat.le_add_right _ _)).trans
      (by rw [Nat.add_sub_cancel_left])
  · rfl

/-- A byte string of a fixed length. -/
structure Block (n : Nat) where
  /-- The bytes in address order. -/
  bytes : List UInt8
  /-- There are exactly `n` of them. -/
  sized : bytes.length = n
deriving DecidableEq

namespace Block

variable {n : Nat}

/-- Two blocks with the same bytes are equal. -/
theorem ext {left right : Block n} (same : left.bytes = right.bytes) : left = right := by
  cases left
  cases right
  simpa using same

/-- A block of one repeated byte. -/
def fill (n : Nat) (byte : UInt8) : Block n := ⟨List.replicate n byte, by simp⟩

/-- The block that starts with the given bytes and continues with zeros. -/
def ofBytes (n : Nat) (bytes : List UInt8) : Block n :=
  ⟨(bytes ++ List.replicate (n - bytes.length) 0).take n, by
    simp only [List.length_take, List.length_append, List.length_replicate]
    omega⟩

/-- A block starts with the bytes given, when they fit, and continues with zeros. -/
theorem ofBytes_bytes {bytes : List UInt8} (fits : bytes.length ≤ n) :
    (ofBytes n bytes).bytes = bytes ++ List.replicate (n - bytes.length) 0 := by
  rw [ofBytes]
  apply List.take_of_length_le
  rw [List.length_append, List.length_replicate]
  omega

/-- Copy `source` over the bytes from offset `off` on; what would land past the end is lost. -/
def splice (block : Block n) (off : Nat) (source : List UInt8) : Block n :=
  ⟨(block.bytes.take off ++ source ++ block.bytes.drop (off + source.length)).take n, by
    simp only [List.length_take, List.length_append, List.length_drop, block.sized]
    omega⟩

/-- A splice that fits, part by part. -/
theorem splice_bytes (block : Block n) {off : Nat} {source : List UInt8}
    (fits : off + source.length ≤ n) :
    (block.splice off source).bytes =
      block.bytes.take off ++ source ++ block.bytes.drop (off + source.length) := by
  have len := block.sized
  rw [splice]
  apply List.take_of_length_le
  rw [List.length_append, List.length_append, List.length_take, List.length_drop]
  omega

/-- A splice that fits, read by position. -/
theorem splice_getElem? (block : Block n) {off : Nat} {source : List UInt8}
    (fits : off + source.length ≤ n) (i : Nat) :
    (block.splice off source).bytes[i]? =
      if off ≤ i ∧ i < off + source.length then source[i - off]? else block.bytes[i]? := by
  have len := block.sized
  have offLen : (block.bytes.take off).length = off := by
    rw [List.length_take]
    omega
  simp only [splice, List.getElem?_take, List.append_assoc, List.getElem?_append, offLen,
    List.getElem?_drop]
  split_ifs with h1 h2 h3 h4 h5 h6
  all_goals first
    | rfl
    | omega
    | (congr 1; omega)
    | (rw [List.getElem?_eq_none (by omega)])

/-- The last of two splices of one width counts. -/
theorem splice_splice (block : Block n) {off : Nat} {first second : List UInt8}
    (same : first.length = second.length) (fits : off + second.length ≤ n) :
    (block.splice off first).splice off second = block.splice off second := by
  have fitsFirst : off + first.length ≤ n := by
    rw [same]
    exact fits
  apply ext
  apply List.ext_getElem?
  intro i
  rw [splice_getElem? _ fits, splice_getElem? _ fits, splice_getElem? _ fitsFirst, same]
  by_cases inside : off ≤ i ∧ i < off + second.length
  · rw [if_pos inside, if_pos inside]
  · rw [if_neg inside, if_neg inside, if_neg inside]

/-- The spliced window holds the source. -/
theorem window_splice_same (block : Block n) {off : Nat} {source : List UInt8}
    (fits : off + source.length ≤ n) :
    window (block.splice off source).bytes off source.length = source := by
  apply List.ext_getElem?
  intro i
  rw [window_getElem?, splice_getElem? block fits]
  split_ifs with h1 h2
  · congr 1
    omega
  · omega
  · exact (List.getElem?_eq_none (by omega)).symm

/-- A window disjoint from the spliced one is as before. -/
theorem window_splice_disjoint (block : Block n) {off : Nat} {source : List UInt8}
    (fits : off + source.length ≤ n) {pos width : Nat}
    (disjoint : pos + width ≤ off ∨ off + source.length ≤ pos) :
    window (block.splice off source).bytes pos width = window block.bytes pos width := by
  apply List.ext_getElem?
  intro i
  rw [window_getElem?, window_getElem?, splice_getElem? block fits]
  split_ifs with h1 h2
  · omega
  · rfl
  · rfl

/-- Everything before a splice is as before. -/
theorem take_splice (block : Block n) {off : Nat} {source : List UInt8}
    (fits : off + source.length ≤ n) :
    (block.splice off source).bytes.take off = block.bytes.take off := by
  have := @window_splice_disjoint n block off source fits 0 off (Or.inl (by omega))
  simpa [window] using this

/-- The bytes up to the end of a splice are the old bytes before it and then the source. -/
theorem take_splice_end (block : Block n) {off : Nat} {source : List UInt8}
    (fits : off + source.length ≤ n) :
    (block.splice off source).bytes.take (off + source.length) =
      block.bytes.take off ++ source := by
  rw [List.take_add, block.take_splice fits]
  congr 1
  exact block.window_splice_same fits

/-- A window of a source that is spliced in at the start. -/
theorem window_splice_start (block : Block n) {source : List UInt8} (fits : source.length ≤ n)
    {pos width : Nat} (inside : pos + width ≤ source.length) :
    window (block.splice 0 source).bytes pos width = window source pos width := by
  have start := @take_splice_end n block 0 source (by omega)
  rw [Nat.zero_add, List.take_zero, List.nil_append] at start
  have whole := List.take_append_drop source.length (block.splice 0 source).bytes
  rw [start] at whole
  rw [← whole, window_append_left _ inside]

end Block

end Lib
