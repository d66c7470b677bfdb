import Mathlib.Data.List.OfFn
import Mathlib.Tactic.Common

/-!
# Texts that can be scanned back

A text prints the values of a type so that a scan of the printed characters finds the value again,
whatever stands behind them; it carries that law. Texts are put together like what they print: fixed
characters, one character for a truth value, a number in front of a character that is no digit, one
text after another whose shape may depend on the first, and a row of texts.
-/
namespace Lib

/-- A printer of a type and a scan of what it prints. -/
structure Text (α : Type) where
  /-- The characters of a value. -/
  print : α → List Char
  /-- The value at the start of some characters, and the characters behind it. -/
  scan : List Char → Option (α × List Char)
  /-- What was printed is found. -/
  scan_print : ∀ value rest, scan (print value ++ rest) = some (value, rest)

attribute [simp] Text.scan_print

namespace Text

variable {α β : Type}

/-- Fixed characters. -/
def fixed (chars : List Char) : Text Unit where
  print _ := chars
  scan text := if chars.isPrefixOf text then some ((), text.drop chars.length) else none
  scan_print _ rest := by simp [List.isPrefixOf_iff_prefix]

/-- One of two characters. -/
def flag (yes no : Char) (differ : yes ≠ no) : Text Bool where
  print value := [if value then yes else no]
  scan
    | [] => none
    | c :: rest =>
      if c = yes then some (true, rest)
      else if c = no then some (false, rest)
      else none
  scan_print value rest := by cases value <;> simp [differ.symm]

/-- The decimal digits of a number, in front of a character that is no digit. -/
def decimal (stop : Char) (noDigit : stop.isDigit = false) : Text Nat where
  print value := Nat.toDigits 10 value ++ [stop]
  scan text :=
    match text.dropWhile Char.isDigit with
    | [] => none
    | c :: rest =>
      if c = stop then some (Nat.ofDigitChars 10 (text.takeWhile Char.isDigit) 0, rest) else none
  scan_print value rest := by
    have digits : ∀ c ∈ Nat.toDigits 10 value, c.isDigit = true :=
      fun c mem => Nat.isDigit_of_mem_toDigits (by decide) (by decide) mem
    rw [List.append_assoc, List.takeWhile_append_of_pos digits, List.dropWhile_append_of_pos digits]
    simp [noDigit, Nat.ofDigitChars_ten_toDigits]

/-- One text after another; the second may depend on what the first prints. -/
def andThen {β : α → Type} (first : Text α) (second : ∀ value, Text (β value)) :
    Text ((value : α) × β value) where
  print value := first.print value.1 ++ (second value.1).print value.2
  scan text := do
    let (value, rest) ← first.scan text
    let (more, rest) ← (second value).scan rest
    some (⟨value, more⟩, rest)
  scan_print value rest := by simp

/-- Two texts, one after the other. -/
def pair (first : Text α) (second : Text β) : Text (α × β) where
  print value := first.print value.1 ++ second.print value.2
  scan text := do
    let (value, rest) ← first.scan text
    let (more, rest) ← second.scan rest
    some ((value, more), rest)
  scan_print value rest := by simp

/-- A text between fixed characters. -/
def between (before : List Char) (text : Text α) (after : List Char) : Text α where
  print value := before ++ text.print value ++ after
  scan chars := do
    let (_, rest) ← (fixed before).scan chars
    let (value, rest) ← text.scan rest
    let (_, rest) ← (fixed after).scan rest
    some (value, rest)
  scan_print value rest := by simp [fixed]

/-- A text of the values that others stand for; those that stand for none are not scanned. -/
def through (text : Text α) (pack : α → Option β) (unpack : β → α)
    (inverse : ∀ value, pack (unpack value) = some value) : Text β where
  print value := text.print (unpack value)
  scan chars := do
    let (value, rest) ← text.scan chars
    let packed ← pack value
    some (packed, rest)
  scan_print value rest := by simp [inverse]

@[simp] theorem print_decimal (stop : Char) (noDigit : stop.isDigit = false) (value : Nat) :
    (decimal stop noDigit).print value = Nat.toDigits 10 value ++ [stop] := rfl

@[simp] theorem print_andThen {β : α → Type} (first : Text α) (second : ∀ value, Text (β value))
    (value : (value : α) × β value) :
    (first.andThen second).print value = first.print value.1 ++ (second value.1).print value.2 :=
  rfl

@[simp] theorem print_pair (first : Text α) (second : Text β) (value : α × β) :
    (first.pair second).print value = first.print value.1 ++ second.print value.2 := rfl

@[simp] theorem print_between (before : List Char) (text : Text α) (after : List Char) (value : α) :
    (text.between before after).print value = before ++ text.print value ++ after := rfl

@[simp] theorem print_through (text : Text α) (pack : α → Option β) (unpack : β → α)
    (inverse : ∀ value, pack (unpack value) = some value) (value : β) :
    (text.through pack unpack inverse).print value = text.print (unpack value) := rfl

/-- A row of texts. -/
def row : {n : Nat} → (Fin n → Text α) → Text (Fin n → α)
  | 0, _ =>
    { print := fun _ => []
      scan := fun chars => some (nofun, chars)
      scan_print := by
        intro value rest
        have same : value = nofun := Subsingleton.elim _ _
        rw [same]
        rfl }
  | _ + 1, texts =>
    { print := fun values => (texts 0).print (values 0) ++
        (row fun i => texts i.succ).print fun i => values i.succ
      scan := fun chars => do
        let (head, chars) ← (texts 0).scan chars
        let (tail, chars) ← (row fun i => texts i.succ).scan chars
        some (Fin.cons head tail, chars)
      scan_print := by
        intro values rest
        have whole : Fin.cons (values 0) (fun i => values i.succ) = values :=
          Fin.cons_self_tail values
        simp [whole] }

/-- A row prints its values one after the other. -/
theorem print_row {n : Nat} (texts : Fin n → Text α) (values : Fin n → α) :
    (row texts).print values = (List.ofFn fun i => (texts i).print (values i)).flatten := by
  induction n with
  | zero => rfl
  | succ n ih =>
    rw [List.ofFn_succ, List.flatten_cons, ← ih]
    rfl

end Text

end Lib
