import Mathlib.Algebra.Order.Group.Nat
import Mathlib.Algebra.Order.Ring.Nat
import Mathlib.Data.Set.Function

namespace NsShaft.Hdl

/-!
# Row by row addresses

A sprite of `w` columns and `h` rows is stored row by row, the cell `(dx, dy)` at the address
`dx + w * dy`.

* `cellAddress_bijOn` — on the sprite's own `w * h` cells the addresses are a bijection onto the
  memory.
* `cellAddress_own_iff` — a window test that admits `dx ≤ w` and `dy ≤ h` claims one column and
  one row more.  The cells with a word of their own are then those inside the sprite, less the
  left column below the first row: the word of `(0, dy + 1)` is also that of `(w, dy)`.
-/

variable {w h dx dy dx' dy' : ℕ}

/-- The address of a cell in a sprite of `w` columns. -/
def cellAddress (w dx dy : ℕ) : ℕ := dx + w * dy

/-- The cells of the sprite lie in the memory. -/
theorem cellAddress_lt (hx : dx < w) (hy : dy < h) : cellAddress w dx dy < w * h := by
  unfold cellAddress
  calc dx + w * dy < w + w * dy := Nat.add_lt_add_right hx _
    _ = w * (dy + 1) := by rw [Nat.mul_succ, Nat.add_comm]
    _ ≤ w * h := Nat.mul_le_mul_left w hy

/-- Cells in the columns of the sprite are told apart by their addresses. -/
theorem cellAddress_inj (hx : dx < w) (hx' : dx' < w)
    (heq : cellAddress w dx dy = cellAddress w dx' dy') : dx = dx' ∧ dy = dy' := by
  unfold cellAddress at heq
  have hmod := congrArg (· % w) heq
  simp only [Nat.add_mul_mod_self_left, Nat.mod_eq_of_lt hx, Nat.mod_eq_of_lt hx'] at hmod
  rw [hmod] at heq
  exact ⟨hmod, Nat.eq_of_mul_eq_mul_left (Nat.zero_lt_of_lt hx) (Nat.add_left_cancel heq)⟩

/-- **Own cells.** The addresses of the sprite's own cells are a bijection onto the memory. -/
theorem cellAddress_bijOn (w h : ℕ) :
    Set.BijOn (fun q : ℕ × ℕ => cellAddress w q.1 q.2) {q | q.1 < w ∧ q.2 < h}
      (Set.Iio (w * h)) := by
  refine ⟨?_, ?_, ?_⟩
  · rintro ⟨dx, dy⟩ ⟨hx, hy⟩
    exact cellAddress_lt hx hy
  · rintro ⟨dx, dy⟩ ⟨hx, -⟩ ⟨dx', dy'⟩ ⟨hx', -⟩ heq
    obtain ⟨rfl, rfl⟩ := cellAddress_inj hx hx' heq
    rfl
  · intro a ha
    have hw : 0 < w := Nat.pos_of_ne_zero fun h0 => by simp [h0] at ha
    exact ⟨(a % w, a / w), ⟨Nat.mod_lt a hw, Nat.div_lt_of_lt_mul ha⟩, Nat.mod_add_div a w⟩

/-- **Inclusive windows.** Among the cells with `dx ≤ w` and `dy ≤ h`, one lies in the memory and
    shares its address with no other exactly if it is inside the sprite and, in the left column,
    in the first row. -/
theorem cellAddress_own_iff (hw : 0 < w) (hx : dx ≤ w) (hy : dy ≤ h) :
    (cellAddress w dx dy < w * h ∧
      ∀ dx' ≤ w, ∀ dy' ≤ h, cellAddress w dx' dy' = cellAddress w dx dy → dx' = dx ∧ dy' = dy) ↔
    dx < w ∧ dy < h ∧ (dx = 0 → dy = 0) := by
  -- the end of a row has the address of the start of the next one
  have hwrap : ∀ d, cellAddress w w d = cellAddress w 0 (d + 1) := by
    intro d
    unfold cellAddress
    rw [Nat.mul_succ, Nat.zero_add, Nat.add_comm]
  constructor
  · rintro ⟨hlt, hone⟩
    have hyh : dy < h := by
      by_contra hge
      have heq : dy = h := by omega
      unfold cellAddress at hlt
      rw [heq] at hlt
      omega
    refine ⟨?_, hyh, ?_⟩
    · by_contra hge
      have heq : dx = w := by omega
      obtain ⟨h0, -⟩ := hone 0 (Nat.zero_le w) (dy + 1) hyh (by rw [heq, hwrap])
      omega
    · rintro rfl
      rcases dy with _ | d
      · rfl
      · obtain ⟨h0, -⟩ := hone w (Nat.le_refl w) d (by omega) (hwrap d)
        omega
  · rintro ⟨hxw, hyh, hleft⟩
    refine ⟨cellAddress_lt hxw hyh, fun dx' hx' dy' _ heq => ?_⟩
    rcases Nat.lt_or_eq_of_le hx' with hlt | rfl
    · exact cellAddress_inj hlt hxw heq
    · -- the last column would be the left one of a later row
      rw [hwrap] at heq
      obtain ⟨h0, hrow⟩ := cellAddress_inj hw hxw heq
      have hfirst := hleft h0.symm
      omega

end NsShaft.Hdl
