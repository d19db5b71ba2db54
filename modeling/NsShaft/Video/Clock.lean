import NsShaft.Video.Controller

namespace NsShaft

open Hdl

/-!
# `Reset_h`, the `VGA_CLK` divider and the controller behind it (`lab8.sv`)

Three registers of `lab8` at `Clk` granularity: `Reset_h`, sampled from `KEY[0]`; `VGA_CLK`,
forced low while `Reset_h` is high and toggled otherwise; and the registers of
`VGA_controller`, which move only at rising edges of `VGA_CLK`.

* `VideoRegs.step` — one rising edge of `Clk`.
* `video_run_eq` — the closed form of a run with `KEY[0]` released, from the reset values.
-/

/-- The registers of the video clocking. -/
@[ext] structure VideoRegs where
  resetH : Bool
  vgaClk : Bool
  vga : VgaRegs
deriving DecidableEq, Repr

/-- `Reset_h` after an edge: the push buttons are active low. -/
def resetHIn (key0 : Bool) : Bool := !key0

/-- `VGA_CLK` after an edge. -/
def VideoRegs.vgaClkIn (s : VideoRegs) : Bool := if s.resetH then false else !s.vgaClk

/-- One rising edge of `Clk`.  When `VGA_CLK` rises at this edge the controller is clocked by
    it, and samples `Reset_h` as this edge has just set it. -/
def VideoRegs.step (s : VideoRegs) (key0 : Bool) : VideoRegs where
  resetH := resetHIn key0
  vgaClk := s.vgaClkIn
  -- a register clocked by `VGA_CLK` moves only where `VGA_CLK` rises
  vga := if s.vgaClk = false ∧ s.vgaClkIn = true then s.vga.step (resetHIn key0) else s.vga

/-- Just after a reset: `Reset_h` released, `VGA_CLK` low, the controller at its reset values. -/
def VideoRegs.released : VideoRegs := ⟨false, false, VgaRegs.zero⟩

/-- A rising edge of `VGA_CLK` clocks the controller. -/
theorem VideoRegs.step_rise {s : VideoRegs} (hr : s.resetH = false) (hc : s.vgaClk = false)
    (key0 : Bool) : s.step key0 = ⟨!key0, true, s.vga.step (!key0)⟩ := by
  simp [VideoRegs.step, VideoRegs.vgaClkIn, resetHIn, hr, hc]

/-- A falling edge of `VGA_CLK` leaves the controller alone. -/
theorem VideoRegs.step_fall {s : VideoRegs} (hc : s.vgaClk = true) (key0 : Bool) :
    s.step key0 = ⟨!key0, false, s.vga⟩ := by
  cases hr : s.resetH <;> simp [VideoRegs.step, VideoRegs.vgaClkIn, resetHIn, hr, hc]

/-- While `Reset_h` is high `VGA_CLK` is held low and the controller is not clocked. -/
theorem VideoRegs.step_held {s : VideoRegs} (hr : s.resetH = true) (key0 : Bool) :
    s.step key0 = ⟨!key0, false, s.vga⟩ := by
  simp [VideoRegs.step, VideoRegs.vgaClkIn, resetHIn, hr]

/-! ### Closed form with `KEY[0]` released -/

/-- The controller after `n` edges of `Clk`: it has seen `(n + 1) / 2` edges of `VGA_CLK`. -/
def vgaAfter (n : ℕ) : VgaRegs := if n = 0 then VgaRegs.zero else vgaAt ((n + 1) / 2)

/-- The registers after `n` edges of `Clk`. -/
def videoAt (n : ℕ) : VideoRegs := ⟨false, n % 2 == 1, vgaAfter n⟩

theorem vgaAfter_step (n : ℕ) (heven : n % 2 = 0) :
    (vgaAfter n).step false = vgaAfter (n + 1) := by
  obtain ⟨j, rfl⟩ : ∃ j, n = 2 * j := ⟨n / 2, by omega⟩
  have hnext : vgaAfter (2 * j + 1) = vgaAt (j + 1) := by
    unfold vgaAfter
    rw [if_neg (by omega), show (2 * j + 1 + 1) / 2 = j + 1 by omega]
  rw [hnext]
  cases j with
  | zero => exact step_eq_vgaAt (k := 0) rfl rfl
  | succ j =>
    have hprev : vgaAfter (2 * (j + 1)) = vgaAt (j + 1) := by
      unfold vgaAfter
      rw [if_neg (by omega), show (2 * (j + 1) + 1) / 2 = j + 1 by omega]
    rw [hprev]
    exact step_eq_vgaAt rfl rfl

theorem vgaAfter_hold (n : ℕ) (hodd : n % 2 = 1) : vgaAfter n = vgaAfter (n + 1) := by
  unfold vgaAfter
  rw [if_neg (by omega), if_neg (by omega), show (n + 1 + 1) / 2 = (n + 1) / 2 by omega]

/-- **Closed form.** The run from the reset values with `KEY[0]` released. -/
theorem video_run_eq (n : ℕ) :
    trace VideoRegs.step VideoRegs.released (fun _ => true) n = videoAt n := by
  induction n with
  | zero => rfl
  | succ n ih =>
    rw [trace_succ, ih]
    rcases Nat.mod_two_eq_zero_or_one n with hpar | hpar
    · -- `VGA_CLK` is low and rises
      rw [VideoRegs.step_rise rfl (by simp [videoAt, hpar])]
      show (⟨false, true, (vgaAfter n).step false⟩ : VideoRegs) = videoAt (n + 1)
      rw [vgaAfter_step n hpar]
      simp [videoAt, Nat.add_mod, hpar]
    · -- `VGA_CLK` is high and falls
      rw [VideoRegs.step_fall (by simp [videoAt, hpar])]
      show (⟨false, false, vgaAfter n⟩ : VideoRegs) = videoAt (n + 1)
      rw [vgaAfter_hold n hpar]
      simp [videoAt, Nat.add_mod, hpar]

end NsShaft
