import Mathlib.Algebra.Group.Basic
import Mathlib.Data.BitVec
import Mathlib.Data.Set.Function

namespace NsShaft.Hdl

/-!
# Wrapping windows

Hardware tests whether a coordinate `p` lies in the window of size `s` at `a` by one unsigned
comparison of a wrapping difference, `p - a ≤ s`.  Two windows of the same size that share a
point start within `s` of each other (`window_near`), so windows that start further apart are
disjoint, wherever they wrap.  A window that does not wrap is an interval (`window_iff`), and a
rectangle is counted by its offsets (`offset_bijOn`).
-/

variable {w : ℕ}

/-- The rectangle test of a pixel `(px, py)` against the corner `(x, y)` and size `(xs, ys)`,
    comparisons with zero included as the hardware writes them. -/
def inWindow (px py x y xs ys : BitVec w) : Bool :=
  decide (px - x ≥ 0) && decide (px - x ≤ xs) && decide (py - y ≥ 0) && decide (py - y ≤ ys)

theorem inWindow_eq_true {px py x y xs ys : BitVec w} :
    inWindow px py x y xs ys = true ↔ px - x ≤ xs ∧ py - y ≤ ys := by
  have h0 : ∀ z : BitVec w, 0#w ≤ z := fun z => BitVec.le_def.mpr (Nat.zero_le _)
  simp [inWindow, h0]

/-- A window that ends before the counter wraps is an interval. -/
theorem window_iff {p a s : BitVec w} (h : a.toNat + s.toNat < 2 ^ w) :
    p - a ≤ s ↔ a.toNat ≤ p.toNat ∧ p.toNat ≤ a.toNat + s.toNat := by
  have hp := p.isLt
  rw [BitVec.le_def]
  by_cases hle : a.toNat ≤ p.toNat
  · rw [BitVec.toNat_sub_of_le (BitVec.le_def.mpr hle)]
    omega
  · -- left of the window the difference wraps, beyond any size that fits
    rw [BitVec.toNat_sub_of_lt (BitVec.lt_def.mpr (Nat.lt_of_not_le hle))]
    omega

/-- The rectangle test, for a rectangle that ends before the counters wrap. -/
theorem inWindow_iff {px py x y xs ys : BitVec w} (hx : x.toNat + xs.toNat < 2 ^ w)
    (hy : y.toNat + ys.toNat < 2 ^ w) :
    inWindow px py x y xs ys = true ↔
      (x.toNat ≤ px.toNat ∧ px.toNat ≤ x.toNat + xs.toNat) ∧
        y.toNat ≤ py.toNat ∧ py.toNat ≤ y.toNat + ys.toNat := by
  rw [inWindow_eq_true, window_iff hx, window_iff hy]

/-- Every offset that does not wrap leads to a coordinate. -/
theorem exists_toNat_eq_add {x : BitVec w} {d : ℕ} (h : x.toNat + d < 2 ^ w) :
    ∃ p : BitVec w, p.toNat = x.toNat + d :=
  ⟨BitVec.ofNat w (x.toNat + d), by rw [BitVec.toNat_ofNat, Nat.mod_eq_of_lt h]⟩

/-- **Offsets.** A rectangle without its far edges has one point for each pair of offsets below
    its size, wherever it wraps. -/
theorem offset_bijOn (x y xs ys : BitVec w) :
    Set.BijOn (fun q : BitVec w × BitVec w => ((q.1 - x).toNat, (q.2 - y).toNat))
      {q | q.1 - x < xs ∧ q.2 - y < ys} {d | d.1 < xs.toNat ∧ d.2 < ys.toNat} := by
  refine ⟨?_, ?_, ?_⟩
  · rintro q ⟨hx, hy⟩
    exact ⟨BitVec.lt_def.mp hx, BitVec.lt_def.mp hy⟩
  · intro q _ q' _ heq
    obtain ⟨hx, hy⟩ := Prod.ext_iff.mp heq
    exact Prod.ext (sub_left_inj.mp (BitVec.eq_of_toNat_eq hx))
      (sub_left_inj.mp (BitVec.eq_of_toNat_eq hy))
  · rintro d ⟨hx, hy⟩
    have hdx : (BitVec.ofNat w d.1).toNat = d.1 := by
      rw [BitVec.toNat_ofNat, Nat.mod_eq_of_lt (lt_trans hx xs.isLt)]
    have hdy : (BitVec.ofNat w d.2).toNat = d.2 := by
      rw [BitVec.toNat_ofNat, Nat.mod_eq_of_lt (lt_trans hy ys.isLt)]
    have hback : ∀ a c : BitVec w, a + c - a = c := fun a c => add_sub_cancel_left a c
    refine ⟨(x + BitVec.ofNat w d.1, y + BitVec.ofNat w d.2), ⟨?_, ?_⟩, ?_⟩
    · rw [hback, BitVec.lt_def, hdx]
      exact hx
    · rw [hback, BitVec.lt_def, hdy]
      exact hy
    · simp only [hback, hdx, hdy]

/-- **Shared points.** If `p` is in both windows of size `s`, one of the two starts lies in the
    window of the other. -/
theorem window_near {p a b s : BitVec w} (ha : p - a ≤ s) (hb : p - b ≤ s) :
    a - b ≤ s ∨ b - a ≤ s := by
  -- the start that is nearer to `p` is the later one, so it lies in the window of the other
  rcases BitVec.le_total (p - a) (p - b) with h | h
  · left
    have he : a - b = p - b - (p - a) := (sub_sub_sub_cancel_left b a p).symm
    rw [he, BitVec.le_def, BitVec.toNat_sub_of_le h]
    exact le_trans (Nat.sub_le _ _) (BitVec.le_def.mp hb)
  · right
    have he : b - a = p - a - (p - b) := (sub_sub_sub_cancel_left a b p).symm
    rw [he, BitVec.le_def, BitVec.toNat_sub_of_le h]
    exact le_trans (Nat.sub_le _ _) (BitVec.le_def.mp ha)

/-- Windows whose starts lie outside each other's window share no point. -/
theorem window_unique {ι : Type*} {start : ι → BitVec w} {s p : BitVec w}
    (hfar : ∀ i j, i ≠ j → ¬ start i - start j ≤ s) {i j : ι}
    (hi : p - start i ≤ s) (hj : p - start j ≤ s) : i = j := by
  by_contra hne
  rcases window_near hi hj with h | h
  · exact hfar i j hne h
  · exact hfar j i (Ne.symm hne) h

end NsShaft.Hdl
