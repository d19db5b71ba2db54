import NsShaft.Video.Controller

namespace NsShaft

open Hdl

/-!
# VGA timing

The outputs of `VGA_controller` at every edge of a run that a reset edge has started, and how
often each pixel of the 640x480 screen is shown.
-/

/-- The registers after `k` edges without reset that follow a reset edge. -/
def VgaRegs.afterReset (r : VgaRegs) (k : ℕ) : VgaRegs :=
  trace VgaRegs.step (r.step true) (fun _ => false) k

/-- Whatever the registers held before the reset edge, they follow the closed form. -/
theorem VgaRegs.afterReset_eq (r : VgaRegs) {k : ℕ} (hk : 1 ≤ k) : r.afterReset k = vgaAt k := by
  obtain ⟨n, rfl⟩ := Nat.exists_eq_add_of_le' hk
  exact vga_run_eq n

/-- The pixel `(x, y)` of the screen is shown: the coordinates are its own and the outputs are
    not blanked. -/
def VgaRegs.shows (r : VgaRegs) (x y : ℕ) : Prop :=
  r.hCounter.toNat = x ∧ r.vCounter.toNat = y ∧ r.vgaBlankN = true

/-- A pixel of the screen is shown at the edges whose number has its coordinates as digits. -/
theorem vgaAt_shows_iff {x y : ℕ} (hx : x < 640) (hy : y < 480) (k : ℕ) :
    (vgaAt k).shows x y ↔ k % 800 = x ∧ k / 800 % 525 = y := by
  unfold VgaRegs.shows
  rw [vgaAt_vgaBlankN]
  show (drawXAt k).toNat = x ∧ (drawYAt k).toNat = y ∧ _ ↔ _
  rw [drawXAt_toNat, drawYAt_toNat]
  constructor
  · rintro ⟨hkx, hky, -⟩
    exact ⟨hkx, hky⟩
  · rintro ⟨rfl, rfl⟩
    exact ⟨rfl, rfl, hx, hy⟩

theorem vgaAt_vgaHs (k : ℕ) : (vgaAt k).vgaHs = false ↔ 656 ≤ k % 800 ∧ k % 800 < 752 := by
  rw [← drawXAt_toNat]
  exact vgaHsIn_eq_false

/-- **VGA timing.** After `k ≥ 1` edges without reset that follow a reset edge, the coordinates
    are `k mod 800` and `k / 800 mod 525`; the sync pulses are low exactly in the columns
    656 to 751 and in the lines 490 and 491, and the outputs are unblanked exactly on the
    screen, all for the coordinates of the same edge; and of the 420000 edges from `k` on
    exactly one shows each pixel of the screen. -/
theorem vga_timing (r : VgaRegs) {k : ℕ} (hk : 1 ≤ k) :
    (r.afterReset k).hCounter.toNat = k % 800 ∧
    (r.afterReset k).vCounter.toNat = k / 800 % 525 ∧
    ((r.afterReset k).vgaHs = false ↔
      656 ≤ (r.afterReset k).hCounter.toNat ∧ (r.afterReset k).hCounter.toNat < 752) ∧
    ((r.afterReset k).vgaVs = false ↔
      490 ≤ (r.afterReset k).vCounter.toNat ∧ (r.afterReset k).vCounter.toNat < 492) ∧
    ((r.afterReset k).vgaBlankN = true ↔
      (r.afterReset k).hCounter.toNat < 640 ∧ (r.afterReset k).vCounter.toNat < 480) ∧
    ∀ x < 640, ∀ y < 480, ∃! j, (k ≤ j ∧ j < k + 420000) ∧ (r.afterReset j).shows x y := by
  have hx : (r.afterReset k).hCounter.toNat = k % 800 := by
    rw [r.afterReset_eq hk]
    exact drawXAt_toNat k
  have hy : (r.afterReset k).vCounter.toNat = k / 800 % 525 := by
    rw [r.afterReset_eq hk]
    exact drawYAt_toNat k
  refine ⟨hx, hy, ?_, ?_, ?_, ?_⟩
  · rw [hx, r.afterReset_eq hk, vgaAt_vgaHs]
  · rw [hy, r.afterReset_eq hk, vgaAt_vgaVs]
  · rw [hx, hy, r.afterReset_eq hk, vgaAt_vgaBlankN]
  · -- the coordinates run through all pairs of digits once in 800 * 525 edges
    intro x hx640 y hy480
    obtain ⟨j, ⟨hj, hdigits⟩, hone⟩ :=
      digits_existsUnique (h := 800) (v := 525) (x := x) (y := y) (by omega) (by omega) k
    refine ⟨j, ⟨hj, ?_⟩, ?_⟩
    · rw [r.afterReset_eq (le_trans hk hj.1), vgaAt_shows_iff hx640 hy480]
      exact hdigits
    · intro i hi
      have hshows := hi.2
      rw [r.afterReset_eq (le_trans hk hi.1.1), vgaAt_shows_iff hx640 hy480] at hshows
      exact hone i ⟨hi.1, hshows⟩

/-- The last edge of the second frame: column 799 of line 524. -/
theorem vga_timing_frame2 :
    (VgaRegs.zero.afterReset 839999).hCounter.toNat = 799 ∧
      (VgaRegs.zero.afterReset 839999).vCounter.toNat = 524 := by
  obtain ⟨hx, hy, -⟩ := vga_timing VgaRegs.zero (k := 839999) (by decide)
  exact ⟨hx.trans (by decide), hy.trans (by decide)⟩

end NsShaft
