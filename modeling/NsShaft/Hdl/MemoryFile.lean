import NsShaft.Hdl.Sprite
import Mathlib.Data.BitVec

namespace NsShaft.Hdl

/-!
# Memory files

A memory is filled from a text file of hexadecimal numbers between white space.  A program that
writes one number a line writes such a file, and a picture written row by row is found again at
the addresses of its cells.

* `readNumbers` — the numbers of a file; `readNumbers_hexLines` reads back what was written.
* `readmemh` — a memory filled from a file.
* `rowMajor` — a picture as the list of its cells, row by row.
-/

/-! ### Numbers -/

/-- The value of a hexadecimal digit. -/
def hexValue (c : Char) : Option ℕ :=
  if '0' ≤ c ∧ c ≤ '9' then some (c.toNat - '0'.toNat)
  else if 'a' ≤ c ∧ c ≤ 'f' then some (c.toNat - 'a'.toNat + 10)
  else if 'A' ≤ c ∧ c ≤ 'F' then some (c.toNat - 'A'.toNat + 10)
  else none

/-- White space. -/
def isBlank (c : Char) : Bool := c == ' ' || c == '\t' || c == '\n' || c == '\r'

/-- The numbers of a text, of which `number` is being read; `none` if there is anything else than
    digits and white space. -/
def readNumbers (number : Option ℕ) : List Char → Option (List ℕ)
  | [] => some number.toList
  | c :: text =>
    match hexValue c with
    | some digit => readNumbers (some (16 * number.getD 0 + digit)) text
    -- white space ends the number that is being read, if there is one
    | none => if isBlank c then (readNumbers none text).map (number.toList ++ ·) else none

/-- A number on a line of its own, as `"%x\n"` formats it. -/
def hexLine (n : ℕ) : List Char := Nat.toDigits 16 n ++ ['\n']

theorem hexValue_digitChar : ∀ d < 16, hexValue (Nat.digitChar d) = some d := by
  decide

theorem readNumbers_digit {number : Option ℕ} {d : ℕ} (hd : d < 16) (text : List Char) :
    readNumbers number (Nat.digitChar d :: text)
      = readNumbers (some (16 * number.getD 0 + d)) text := by
  rw [readNumbers, hexValue_digitChar d hd]

/-- The digits of a number are read as the number, whatever follows. -/
theorem readNumbers_toDigits (n : ℕ) (text : List Char) :
    readNumbers none (Nat.toDigits 16 n ++ text) = readNumbers (some n) text := by
  induction n using Nat.strong_induction_on generalizing text with
  | _ n ih =>
    by_cases hlt : n < 16
    · rw [Nat.toDigits_of_lt_base hlt, List.singleton_append, readNumbers_digit hlt]
      simp
    · -- all digits but the last are those of `n / 16`
      have hlast : n % 16 < 16 := Nat.mod_lt n (by decide)
      have hvalue : 16 * (n / 16) + n % 16 = n := Nat.div_add_mod n 16
      rw [Nat.toDigits_of_base_le (by decide) (Nat.le_of_not_lt hlt), List.append_assoc,
        List.singleton_append, ih (n / 16) (by omega), readNumbers_digit hlast]
      rw [Option.getD_some, hvalue]

/-- **Round trip.** The numbers of a file with one number a line are those that were written. -/
theorem readNumbers_hexLines (ns : List ℕ) : readNumbers none (ns.flatMap hexLine) = some ns := by
  induction ns with
  | nil => rfl
  | cons n ns ih =>
    rw [List.flatMap_cons, hexLine, List.append_assoc, readNumbers_toDigits, List.singleton_append,
      readNumbers, show hexValue '\n' = none from by decide]
    simp only [show isBlank '\n' = true from rfl, if_true, ih, Option.map_some,
      Option.toList_some, List.singleton_append]

/-! ### Memories -/

/-- A memory of `size` words of `w` bits filled from a file.  A word for which the file has no
    number is unknown, and so are all if the file cannot be read; further numbers are ignored. -/
def readmemh (w size : ℕ) (text : List Char) : Vector (Option (BitVec w)) size :=
  let numbers := (readNumbers none text).getD []
  Vector.ofFn fun i => (numbers[i.val]?).map (BitVec.ofNat w)

/-- What is loaded from a file with one number a line. -/
theorem readmemh_hexLines {w size a : ℕ} (ns : List ℕ) (ha : a < size) :
    (readmemh w size (ns.flatMap hexLine))[a]? = some ((ns[a]?).map (BitVec.ofNat w)) := by
  unfold readmemh
  rw [readNumbers_hexLines]
  simp [ha]

/-! ### Pictures -/

variable {α : Type*} {w h x y : ℕ}

/-- The cells of a picture of `w` columns and `h` rows, row by row. -/
def rowMajor (w h : ℕ) (cell : ℕ → ℕ → α) : List α :=
  (List.range h).flatMap fun y => (List.range w).map fun x => cell x y

theorem rowMajor_succ (cell : ℕ → ℕ → α) :
    rowMajor w (h + 1) cell = rowMajor w h cell ++ (List.range w).map fun x => cell x h := by
  unfold rowMajor
  rw [List.range_succ, List.flatMap_append, List.flatMap_singleton]

theorem rowMajor_length (cell : ℕ → ℕ → α) : (rowMajor w h cell).length = w * h := by
  induction h with
  | zero => rfl
  | succ h ih =>
    rw [rowMajor_succ, List.length_append, ih, List.length_map, List.length_range, Nat.mul_succ]

/-- Everything in the list is a cell. -/
theorem mem_rowMajor {cell : ℕ → ℕ → α} {a : α} (ha : a ∈ rowMajor w h cell) :
    ∃ x y, cell x y = a := by
  obtain ⟨y, -, hrow⟩ := List.mem_flatMap.mp ha
  obtain ⟨x, -, rfl⟩ := List.mem_map.mp hrow
  exact ⟨x, y, rfl⟩

/-- A cell is found at its address. -/
theorem rowMajor_cell (cell : ℕ → ℕ → α) (hx : x < w) (hy : y < h) :
    (rowMajor w h cell)[cellAddress w x y]? = some (cell x y) := by
  induction h with
  | zero => exact absurd hy (Nat.not_lt_zero y)
  | succ h ih =>
    rw [rowMajor_succ]
    by_cases hlt : y < h
    · have hin : cellAddress w x y < (rowMajor w h cell).length := by
        rw [rowMajor_length]
        exact cellAddress_lt hx hlt
      rw [List.getElem?_append_left hin, ih hlt]
    · -- the last row follows all the others
      obtain rfl : y = h := by omega
      have hlen := rowMajor_length (w := w) (h := y) cell
      rw [List.getElem?_append_right (by rw [hlen]; exact Nat.le_add_left _ _), hlen]
      have hcol : cellAddress w x y - w * y = x := Nat.add_sub_cancel _ _
      rw [hcol, List.getElem?_map, List.getElem?_range hx, Option.map_some]

end NsShaft.Hdl
