import U6fs.Lib.Text
import U6fs.Verif.CommandView

/-!
# The text of the bitmaps

The command `bm` prints both bitmaps, with their ranges, their cursors and a row of bits for each
word. The text can be scanned back: it tells the bitmaps apart in all that they hold. So it tells
which numbers are in use after any life of a disk file, and no file uses a sector that it shows
free.
-/
namespace U6fs

open Lib

/-- The bits of a byte, low bits first, and a character behind them. -/
def byteText (stop : Char) : Text (Fin 8 → Bool) :=
  (Text.row fun _ => Text.flag '1' '0' (by decide)).between [] [stop]

/-- The bytes of a word, with blanks between them and a newline behind the last. -/
def wordText : Text UInt64 :=
  (Text.row fun i : Fin 8 => byteText (if i = 7 then '\n' else ' ')).through
    (fun bytes => some (Word.ofBits fun i =>
      bytes ⟨i / 8, by omega⟩ ⟨i % 8, Nat.mod_lt _ (by decide)⟩))
    (fun word i j => Word.bit word (8 * i + j)) (by
      intro word
      simp only [Nat.div_add_mod, Word.ofBits_bit])

/-- A bit of a byte of a word. -/
theorem printBit_bit (word : UInt64) {start k : Nat} (inside : start < 64) (small : k < 8) :
    printBit ((word >>> start.toUInt64) &&& 0xff).toUInt8 (1 <<< k.toUInt8) =
      if Word.bit word (start + k) then '1' else '0' := by
  rw [printBit]
  simp only [Word.mask_byte word inside small]

/-- A byte of a word. -/
theorem printSlice_eq (word : UInt64) {i : Nat} (inside : i < 8) (stop : Char) :
    printSlice word (8 * i).toUInt64 ++ [stop] =
      (byteText stop).print fun j => Word.bit word (8 * i + j) := by
  have bit (j : Nat) (small : j < 8) :=
    printBit_bit word (by omega : 8 * i < 64) small
  have row : printSlice word (8 * i).toUInt64 = (List.ofFn fun j : Fin 8 =>
      [if Word.bit word (8 * i + j) then '1' else '0']).flatten := by
    rw [printSlice, printBinaryByte]
    exact congrArg₂ List.cons (bit 0 (by decide)) (congrArg₂ List.cons (bit 1 (by decide))
      (congrArg₂ List.cons (bit 2 (by decide)) (congrArg₂ List.cons (bit 3 (by decide))
      (congrArg₂ List.cons (bit 4 (by decide)) (congrArg₂ List.cons (bit 5 (by decide))
      (congrArg₂ List.cons (bit 6 (by decide)) (congrArg₂ List.cons (bit 7 (by decide)) rfl)))))))
  rw [row]
  change _ = [] ++ (Text.row _).print _ ++ [stop]
  rw [Text.print_row]
  rfl

/-- The characters of a word are those of its bytes. -/
theorem print_wordText (word : UInt64) : wordText.print word =
    (List.ofFn fun i : Fin 8 => (byteText (if i = 7 then '\n' else ' ')).print fun j =>
      Word.bit word (8 * i + j)).flatten :=
  Text.print_row (fun i : Fin 8 => byteText (if i = 7 then '\n' else ' ')) fun i j =>
    Word.bit word (8 * i + j)

/-- `println_binary_uint64_t` prints the bits of a word. -/
theorem printlnBinaryUint64_eq (word : UInt64) :
    printlnBinaryUint64 word = wordText.print word := by
  have byte (i : Nat) (inside : i < 8) := printSlice_eq word inside
  have bytes : printlnBinaryUint64 word = [printSlice word 0 ++ [' '], printSlice word 8 ++ [' '],
      printSlice word 16 ++ [' '], printSlice word 24 ++ [' '], printSlice word 32 ++ [' '],
      printSlice word 40 ++ [' '], printSlice word 48 ++ [' '],
      printSlice word 56 ++ ['\n']].flatten := by
    simp only [printlnBinaryUint64, List.flatten_cons, List.flatten_nil, List.append_assoc,
      List.append_nil]
  rw [bytes, print_wordText]
  apply congrArg List.flatten
  exact congrArg₂ List.cons (byte 0 (by decide) ' ') (congrArg₂ List.cons (byte 1 (by decide) ' ')
    (congrArg₂ List.cons (byte 2 (by decide) ' ') (congrArg₂ List.cons (byte 3 (by decide) ' ')
    (congrArg₂ List.cons (byte 4 (by decide) ' ') (congrArg₂ List.cons (byte 5 (by decide) ' ')
    (congrArg₂ List.cons (byte 6 (by decide) ' ') (congrArg₂ List.cons
      (byte 7 (by decide) '\n') rfl)))))))

/-- A line of the header: a label, and a number. -/
def fieldText (label : String) : Text Nat :=
  (Text.decimal '\n' (by decide)).between label.toList []

/-- The header: the length, the range and the cursor. -/
def headerText : Text (Nat × Nat × Nat × Nat) :=
  ((fieldText "length: ").pair ((fieldText "min: ").pair
    ((fieldText "max: ").pair (fieldText "cursor: ")))).between [] "content:\n".toList

/-- The rows: the index of a word, and its bits. -/
def rowsText (length : Nat) : Text (Fin length → UInt64) :=
  Text.row fun i => wordText.between (printDecimal2 i ++ ": ".toList) []

namespace BmblockArray

/-- The fields of a bitmap. -/
def fields (b : BmblockArray) : (header : Nat × Nat × Nat × Nat) × (Fin header.1 → UInt64) :=
  ⟨(b.length, b.min, b.max, b.cursor), fun i => b.bm.get (i.cast b.length_eq)⟩

/-- The bitmap with certain fields, if they are those of one. -/
def ofFields :
    (header : Nat × Nat × Nat × Nat) × (Fin header.1 → UInt64) → Option BmblockArray
  | ⟨(length, min, max, cursor), words⟩ =>
    if legal : min ≤ max ∧ length = (max - min) / bitsPerVector + 1 ∧ cursor < length then
      some {
        cursor, min, max, length
        bm := List.ofFn words
        range := legal.1
        sized := legal.2.1
        words := List.length_ofFn
        inside := legal.2.2 }
    else none

/-- A bitmap is that of its fields. -/
theorem ofFields_fields (b : BmblockArray) : ofFields b.fields = some b := by
  obtain ⟨cursor, min, max, length, bm, range, sized, words, inside⟩ := b
  subst words
  rw [fields, ofFields, dif_pos ⟨range, sized, inside⟩]
  congr 2
  exact List.ofFn_get bm

end BmblockArray

/-- A bitmap under a name. -/
def bmText (name : List Char) : Text BmblockArray :=
  ((headerText.andThen fun header => rowsText header.1).through
    BmblockArray.ofFields BmblockArray.fields BmblockArray.ofFields_fields).between
    ("**********BitMap Block ".toList ++ name ++ " START**********\n".toList)
    ("**********BitMap Block ".toList ++ name ++ " END************\n".toList)

/-- The rows are printed one after the other. -/
theorem print_rowsText {length : Nat} (words : Fin length → UInt64) :
    (rowsText length).print words = (List.finRange length).flatMap fun i : Fin length =>
      printDecimal2 i ++ ": ".toList ++ printlnBinaryUint64 (words i) := by
  have row := Text.print_row
    (fun i : Fin length => wordText.between (printDecimal2 i ++ ": ".toList) []) words
  rw [rowsText, row, List.ofFn_eq_map, ← List.flatMap_def]
  apply List.flatMap_congr
  intro i _
  rw [printlnBinaryUint64_eq]
  exact List.append_nil _

/-- `bm_print` prints a bitmap under a name. -/
theorem bmPrint_eq (name : List Char) (b : BmblockArray) :
    bmPrint name b = (bmText name).print b := by
  have rows := print_rowsText fun i => b.bm.get (i.cast b.length_eq)
  unfold bmPrint
  rw [← rows]
  simp only [bmText, headerText, fieldText, Text.print_between, Text.print_through,
    Text.print_andThen, Text.print_pair, Text.print_decimal, BmblockArray.fields, printDecimal,
    List.append_assoc, List.nil_append, List.append_nil]

/-- Both bitmaps. -/
def bitmapsText : Text (BmblockArray × BmblockArray) :=
  (bmText "INODES".toList).pair (bmText "SECTORS".toList)

/-- The command `bm` prints both bitmaps. -/
theorem utilsPrintBitmaps_eq (u : UnixFilesystem) :
    utilsPrintBitmaps u = (errNone, bitmapsText.print (u.ibm, u.fbm)) := by
  rw [utilsPrintBitmaps, bmPrint_eq, bmPrint_eq]
  rfl

/-- The text of `bm` can be scanned back to both bitmaps. -/
theorem utilsPrintBitmaps_scanned (u : UnixFilesystem) :
    bitmapsText.scan (utilsPrintBitmaps u).2 = some ((u.ibm, u.fbm), []) := by
  rw [utilsPrintBitmaps_eq, ← List.append_nil (bitmapsText.print (u.ibm, u.fbm)), Text.scan_print]

/-- What the text of the command `bm` shows of a volume. -/
structure Volume.Charted (ns : Volume) (u : UnixFilesystem) (text : List Char) : Prop where
  /-- It is that of the bitmaps, to its end. -/
  scanned : bitmapsText.scan text = some ((u.ibm, u.fbm), [])
  /-- The inode bits are the numbers in use. -/
  numbers : ∀ n : UInt16, u.ibm.Marked n.toNat ↔ ns n ≠ none
  /-- A sector of the data region that a file uses has its bit set. -/
  sectors : ∀ inr inode x, u.f.Allocated u.s inr inode → u.f.Uses inode x → u.s.InData x →
    u.fbm.Marked x

/-- On a volume in good health, the text of `bm` shows its numbers and the sectors of its files. -/
theorem Healthy.charted {u : UnixFilesystem} (healthy : Healthy u) :
    (namespaceOf u).Charted u (utilsPrintBitmaps u).2 := by
  constructor
  case scanned => exact utilsPrintBitmaps_scanned u
  case numbers =>
    intro n
    rw [healthy.coherent.ibm, ne_eq, namespaceOf_eq_none_iff, not_not]
    constructor
    · rintro ⟨-, used⟩
      exact used
    · intro used
      exact ⟨healthy.visited _ used, used⟩
  case sectors =>
    rintro inr inode x allocated ⟨p, there⟩ data
    exact healthy.ownersMarked inr inode allocated p x there data

/-- The text of the command `bm` can be scanned back to the bitmaps of any file system. After any
life of the disk file of a volume in good health, it shows which numbers the requests have taken,
and no file uses a sector of the data region that it shows free. -/
theorem life_charted {u : UnixFilesystem} (healthy : Healthy u) {requests : List Request}
    {sectors : List Sector} (life : Life u.f.sectors requests sectors) :
    (∀ v : UnixFilesystem,
      bitmapsText.scan (utilsPrintBitmaps v).2 = some ((v.ibm, v.fbm), [])) ∧
    ∃ ns, (namespaceOf u).Life requests ns ∧
      ∀ f : Disk, f.sectors = sectors → f.host.Faultless → ∃ w, mountv6 f = .ok w ∧
        Prints f "bm" 3 (.bitmaps w.ibm w.fbm) ∧ ns.Charted w (utilsPrintBitmaps w).2 := by
  obtain ⟨ns, recovers, lives⟩ := life_refines healthy life
  refine ⟨utilsPrintBitmaps_scanned, ns, lives, fun f same works => ?_⟩
  obtain ⟨w, mounted, -, well, rfl⟩ := recovers f same works
  refine ⟨w, mounted, ?_, well.charted⟩
  obtain ⟨rfl, -⟩ := mountv6_coherent mounted
  intro env fuel opens is
  have other {name : String} {argc : Nat} (ne : literal "bm" ≠ literal name) :
      isCommand env.argv name argc = false := isCommand_other is ne
  have run : runCommand fuel env w = some (errNone, .bitmaps w.ibm w.fbm, w) := by
    rw [runCommand]
    simp only [other (by decide : literal "bm" ≠ literal "inode"),
      other (by decide : literal "bm" ≠ literal "sb"),
      other (by decide : literal "bm" ≠ literal "shafiles"),
      other (by decide : literal "bm" ≠ literal "cat1"),
      other (by decide : literal "bm" ≠ literal "tree"),
      other (by decide : literal "bm" ≠ literal "fuse"), is, Bool.false_eq_true, if_false, if_true]
  rw [u6fsDoOneCmd_eq opens is mounted, run, Option.map_some]
  rfl

/-- After the `mkdir` that is cut off, the command `bm` shows what the empty volume has become. -/
theorem life_charted_empty : ∃ u f w ns, mountv6 emptyVolume = .ok u ∧ mountv6 f = .ok w ∧
    (namespaceOf u).Life [.mkdir (literal "/a"), .mkdir (literal "/c")] ns ∧
    ns.Charted w (utilsPrintBitmaps w).2 := by
  obtain ⟨u, f, v, output, f', mounted, life, works, -⟩ := emptyVolume_life
  obtain ⟨-, ns, lives, charted⟩ := life_charted (emptyVolume_healthy mounted) life
  obtain ⟨w, recovered, -, shown⟩ := charted f rfl works
  exact ⟨u, f, w, ns, mounted, recovered, lives, shown⟩

end U6fs
