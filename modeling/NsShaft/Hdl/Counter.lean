import Mathlib.Algebra.Order.Group.Nat
import Mathlib.Data.Nat.ModEq
import Mathlib.Algebra.Order.Ring.Nat
import Mathlib.Tactic.SplitIfs

namespace NsShaft.Hdl

/-!
# Wrapping counters

A counter that wraps at `h` holds the number of its steps mod `h`; a second counter that steps
when the first one wraps, and wraps at `v`, holds their quotient mod `v`.  The lemmas state how
these digits change at a step, in the `if` form of the hardware's next-state logic, and that the
pair runs through all its values once in `h * v` steps (`digits_existsUnique`).
-/

variable {h v : ℕ}

/-- **Low digit.** It counts up and wraps at `h`. -/
theorem succ_mod_eq (hh : 0 < h) (k : ℕ) :
    (k + 1) % h = if k % h + 1 = h then 0 else k % h + 1 := by
  have hlt := Nat.mod_lt k hh
  have hk := Nat.div_add_mod k h
  split_ifs with hw
  · have hsucc : k + 1 = h * (k / h + 1) := by rw [Nat.mul_add]; omega
    rw [hsucc, Nat.mul_mod_right]
  · have hsucc : k + 1 = (k % h + 1) + h * (k / h) := by omega
    conv_lhs => rw [hsucc]
    rw [Nat.add_mul_mod_self_left, Nat.mod_eq_of_lt (by omega)]

/-- The quotient steps when the low digit wraps. -/
theorem succ_div_eq (hh : 0 < h) (k : ℕ) :
    (k + 1) / h = if k % h + 1 = h then k / h + 1 else k / h := by
  have hlt := Nat.mod_lt k hh
  have hk := Nat.div_add_mod k h
  split_ifs with hw
  · have hsucc : k + 1 = h * (k / h + 1) := by rw [Nat.mul_add]; omega
    rw [hsucc, Nat.mul_div_cancel_left _ hh]
  · have hsucc : k + 1 = (k % h + 1) + h * (k / h) := by omega
    conv_lhs => rw [hsucc]
    rw [Nat.add_mul_div_left _ _ hh, Nat.div_eq_of_lt (by omega), Nat.zero_add]

/-- **High digit.** It counts the wraps of the low digit and wraps at `v`. -/
theorem succ_div_mod_eq (hh : 0 < h) (hv : 0 < v) (k : ℕ) :
    (k + 1) / h % v = if k % h + 1 = h then
      (if k / h % v + 1 = v then 0 else k / h % v + 1) else k / h % v := by
  rw [succ_div_eq hh]
  split
  · exact succ_mod_eq hv (k / h)
  · rfl

/-! ### Whole periods -/

/-- Among any `h` consecutive numbers exactly one has a given remainder. -/
theorem mod_existsUnique {c : ℕ} (hc : c < h) (k : ℕ) : ∃! j, (k ≤ j ∧ j < k + h) ∧ j % h = c := by
  have hpos : 0 < h := Nat.zero_lt_of_lt hc
  have hlt := Nat.mod_lt (c + (h - k % h)) hpos
  have hk := Nat.mod_lt k hpos
  -- the number of steps from the remainder of `k` up to `c`, once round if need be
  have hrem : (k + (c + (h - k % h)) % h) % h = c := by
    have hsum : k % h + (c + (h - k % h)) = c + h := by omega
    rw [Nat.add_mod_mod, ← Nat.mod_add_mod, hsum, Nat.add_mod_right, Nat.mod_eq_of_lt hc]
  refine ⟨k + (c + (h - k % h)) % h, ⟨⟨by omega, by omega⟩, hrem⟩, ?_⟩
  rintro j ⟨⟨hge, hle⟩, hj⟩
  obtain ⟨i, rfl⟩ := Nat.exists_eq_add_of_le hge
  have hmod : k + i ≡ k + (c + (h - k % h)) % h [MOD h] := hj.trans hrem.symm
  have hi := Nat.ModEq.add_left_cancel' k hmod
  rw [Nat.ModEq, Nat.mod_eq_of_lt (by omega), Nat.mod_mod] at hi
  rw [hi]

/-- **Whole period.** Among any `h * v` consecutive numbers exactly one has given digits. -/
theorem digits_existsUnique {x y : ℕ} (hx : x < h) (hy : y < v) (k : ℕ) :
    ∃! j, (k ≤ j ∧ j < k + h * v) ∧ j % h = x ∧ j / h % v = y := by
  have hdigits : ∀ j, j % (h * v) = x + h * y ↔ j % h = x ∧ j / h % v = y := by
    intro j
    rw [Nat.mod_mul]
    constructor
    · intro hj
      have hlow := congrArg (· % h) hj
      simp only [Nat.add_mul_mod_self_left, Nat.mod_mod, Nat.mod_eq_of_lt hx] at hlow
      rw [hlow] at hj
      exact ⟨hlow, Nat.eq_of_mul_eq_mul_left (Nat.zero_lt_of_lt hx) (Nat.add_left_cancel hj)⟩
    · rintro ⟨hlow, hhigh⟩
      rw [hlow, hhigh]
  -- both digits together are one remainder of the longer period
  have hlt : x + h * y < h * v := by
    calc x + h * y < h + h * y := Nat.add_lt_add_right hx _
      _ = h * (y + 1) := by rw [Nat.mul_succ, Nat.add_comm]
      _ ≤ h * v := Nat.mul_le_mul_left h hy
  simpa only [hdigits] using mod_existsUnique hlt k

end NsShaft.Hdl
