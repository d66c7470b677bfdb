import U6fs.Lib.Block

/-!
# Fixed-width records

A codec lays a value out in a fixed number of bytes, as a C structure without padding lies in
memory: little-endian words, fields one after the other, arrays element by element. Its value
carries the law that reading the written bytes gives the value back. A block holds an array of
such records (`Codec.get`, `Codec.set`), and an update changes one record only.
-/
namespace Lib

/-- A fixed-width layout of a type and its round-trip law. -/
structure Codec (α : Type) where
  /-- Bytes that every value takes. -/
  width : Nat
  /-- The bytes of a value, in address order. -/
  encode : α → List UInt8
  /-- The value that some bytes stand for. -/
  decode : List UInt8 → α
  /-- Every value takes the same number of bytes. -/
  encode_length : ∀ value, (encode value).length = width
  /-- Reading back what was written. -/
  decode_encode : ∀ value, decode (encode value) = value

attribute [simp] Codec.encode_length Codec.decode_encode

namespace Codec

variable {α β : Type}

/-- One byte. -/
def u8 : Codec UInt8 where
  width := 1
  encode value := [value]
  decode bytes := bytes.headD 0
  encode_length _ := rfl
  decode_encode _ := rfl

/-- A 16-bit word, low byte first. -/
def u16 : Codec UInt16 where
  width := 2
  encode value := [UInt8.ofNat (value.toNat % 256), UInt8.ofNat (value.toNat / 256)]
  decode bytes := UInt16.ofNat ((bytes.getD 0 0).toNat + 256 * (bytes.getD 1 0).toNat)
  encode_length _ := rfl
  decode_encode value := by
    have bound := value.toNat_lt
    apply UInt16.toNat_inj.mp
    simp only [List.getD_cons_zero, List.getD_cons_succ, UInt8.toNat_ofNat', UInt16.toNat_ofNat']
    omega

/-- Two fields, the left one first. -/
def pair (left : Codec α) (right : Codec β) : Codec (α × β) where
  width := left.width + right.width
  encode value := left.encode value.1 ++ right.encode value.2
  decode bytes := (left.decode (bytes.take left.width), right.decode (bytes.drop left.width))
  encode_length value := by simp
  decode_encode value := by
    have split := left.encode_length value.1
    rw [List.take_left' split, List.drop_left' split]
    simp

/-- A change of representation through an inverse pair. -/
def map (codec : Codec α) (pack : α → β) (unpack : β → α)
    (inverse : ∀ value, pack (unpack value) = value) : Codec β where
  width := codec.width
  encode value := codec.encode (unpack value)
  decode bytes := pack (codec.decode bytes)
  encode_length value := codec.encode_length _
  decode_encode value := by simp [inverse]

/-- Element `i` of an array lies `i` widths after its start. -/
theorem window_flatMap (codec : Codec α) (values : List α) (i : Nat) (inside : i < values.length) :
    window (values.flatMap codec.encode) (i * codec.width) codec.width =
      codec.encode values[i] := by
  induction values generalizing i with
  | nil => simp at inside
  | cons value values ih =>
    cases i with
    | zero =>
      simp only [List.flatMap_cons, Nat.zero_mul, window, List.drop_zero, List.getElem_cons_zero]
      exact List.take_left' (codec.encode_length value)
    | succ i =>
      have rest := ih i (by simpa using inside)
      simp only [List.flatMap_cons, window, List.getElem_cons_succ] at rest ⊢
      rw [show (i + 1) * codec.width = (codec.encode value).length + i * codec.width by
        rw [codec.encode_length, Nat.add_mul, Nat.one_mul, Nat.add_comm]]
      rw [← List.drop_drop, List.drop_left]
      exact rest

/-- An array of a fixed number of elements. -/
def array (codec : Codec α) (count : Nat) : Codec (Vector α count) where
  width := count * codec.width
  encode values := values.toList.flatMap codec.encode
  decode bytes :=
    Vector.ofFn fun i : Fin count => codec.decode (window bytes (i.val * codec.width) codec.width)
  encode_length values := by
    rw [List.length_flatMap]
    simp
  decode_encode values := by
    ext i inside
    simp only [Vector.getElem_ofFn]
    rw [window_flatMap codec values.toList i (by simpa using inside)]
    simp

section Records

variable {n : Nat} (codec : Codec α)

/-- Record `i` of a block. -/
def get (block : Block n) (i : Nat) : α :=
  codec.decode (window block.bytes (i * codec.width) codec.width)

/-- The block with record `i` replaced. -/
def set (block : Block n) (i : Nat) (value : α) : Block n :=
  block.splice (i * codec.width) (codec.encode value)

/-- A replaced record reads back as the new value. -/
theorem get_set_same (block : Block n) {i : Nat} (value : α) (fits : (i + 1) * codec.width ≤ n) :
    codec.get (codec.set block i value) i = value := by
  have room : i * codec.width + (codec.encode value).length ≤ n := by
    rw [codec.encode_length]
    rwa [Nat.add_mul, Nat.one_mul] at fits
  have spliced := block.window_splice_same room
  rw [codec.encode_length] at spliced
  simp [get, set, spliced]

/-- Every other record is as before. -/
theorem get_set_other (block : Block n) {i j : Nat} (value : α)
    (fits : (i + 1) * codec.width ≤ n) (other : j ≠ i) :
    codec.get (codec.set block i value) j = codec.get block j := by
  have room : i * codec.width + (codec.encode value).length ≤ n := by
    rw [codec.encode_length]
    rwa [Nat.add_mul, Nat.one_mul] at fits
  have apart : j * codec.width + codec.width ≤ i * codec.width ∨
      i * codec.width + (codec.encode value).length ≤ j * codec.width := by
    rw [codec.encode_length]
    rcases Nat.lt_or_gt_of_ne other with below | above
    · left
      calc j * codec.width + codec.width = (j + 1) * codec.width := by
            rw [Nat.add_mul, Nat.one_mul]
        _ ≤ i * codec.width := Nat.mul_le_mul_right _ below
    · right
      calc i * codec.width + codec.width = (i + 1) * codec.width := by
            rw [Nat.add_mul, Nat.one_mul]
        _ ≤ j * codec.width := Nat.mul_le_mul_right _ above
  simp only [get, set]
  rw [block.window_splice_disjoint room apart]

/-- The last of two replacements of one record counts. -/
theorem set_set (block : Block n) {i : Nat} (first second : α) (fits : (i + 1) * codec.width ≤ n) :
    codec.set (codec.set block i first) i second = codec.set block i second := by
  have same : (codec.encode first).length = (codec.encode second).length := by
    rw [codec.encode_length, codec.encode_length]
  have room : i * codec.width + (codec.encode second).length ≤ n := by
    rw [codec.encode_length]
    rwa [Nat.add_mul, Nat.one_mul] at fits
  exact block.splice_splice same room

end Records

end Codec

end Lib
