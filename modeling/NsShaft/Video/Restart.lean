import NsShaft.Video.Clock

namespace NsShaft

open Hdl

/-!
# `KEY[0]` and the video controller

The controller is reset by edges of `VGA_CLK`, and `Reset_h` stops `VGA_CLK`.  A press therefore
reaches the controller only through the `VGA_CLK` edge that coincides with `Reset_h` rising, and
there is one only if `VGA_CLK` was low.

* `pressKey0_of_low`, `pressKey0_of_high` — what a press does in either phase.
* `Scanning` — while `VGA_CLK` is high outside reset the controller is past its reset values.
* `pressKey0_restarts_iff` — a press restarts the controller exactly in the low phase.
-/

/-- The registers reached from power-up by `n` edges with the given samples of `KEY[0]`. -/
def videoFrom (keys : ℕ → Bool) (n : ℕ) : VideoRegs :=
  trace VideoRegs.step VideoRegs.released keys n

/-- A press of `KEY[0]` over `m` edges, up to the edge that brings `Reset_h` back to 0. -/
def pressKey0 (m : ℕ) (s : VideoRegs) : VideoRegs :=
  (trace VideoRegs.step s (fun _ => false) m).step true

/-! ### The two phases -/

/-- While `KEY[0]` stays pressed after `Reset_h` has risen, the controller keeps its registers. -/
theorem trace_pressed {s : VideoRegs} (hr : s.resetH = true) (m : ℕ) :
    (trace VideoRegs.step s (fun _ => false) m).resetH = true ∧
      (trace VideoRegs.step s (fun _ => false) m).vga = s.vga := by
  induction m with
  | zero => exact ⟨hr, rfl⟩
  | succ m ih =>
    rw [trace_succ, VideoRegs.step_held ih.1]
    exact ⟨rfl, ih.2⟩

/-- The controller registers after a press are those after its first edge. -/
theorem pressKey0_vga (s : VideoRegs) (m : ℕ) :
    (pressKey0 (m + 1) s).resetH = false ∧ (pressKey0 (m + 1) s).vga = (s.step false).vga := by
  obtain ⟨hr, hv⟩ := trace_pressed (s := s.step false) rfl m
  have hfirst : trace VideoRegs.step s (fun _ => false) (m + 1)
      = trace VideoRegs.step (s.step false) (fun _ => false) m := by
    rw [Nat.add_comm, trace_add]
    rfl
  -- the edge that samples the released key still finds `Reset_h` high
  unfold pressKey0
  rw [hfirst, VideoRegs.step_held hr]
  exact ⟨rfl, hv⟩

/-- Low phase: the first edge raises `VGA_CLK` and `Reset_h` together and resets. -/
theorem pressKey0_of_low {s : VideoRegs} (hr : s.resetH = false) (hc : s.vgaClk = false) (m : ℕ) :
    (pressKey0 (m + 1) s).vga = VgaRegs.zero := by
  rw [(pressKey0_vga s m).2, VideoRegs.step_rise hr hc]
  rfl

/-- High phase: `VGA_CLK` falls and stays low, and the press passes unseen. -/
theorem pressKey0_of_high {s : VideoRegs} (hc : s.vgaClk = true) (m : ℕ) :
    (pressKey0 (m + 1) s).vga = s.vga := by
  rw [(pressKey0_vga s m).2, VideoRegs.step_fall hc]

/-! ### Reachable states -/

/-- While `VGA_CLK` is high outside reset, the controller is not at its reset values. -/
def Scanning (s : VideoRegs) : Prop := s.resetH = false → s.vgaClk = true → s.vga ≠ VgaRegs.zero

/-- An edge without reset never leads to the reset values: pixel (0, 0) is not blanked. -/
theorem VgaRegs.step_ne_zero (r : VgaRegs) : r.step false ≠ VgaRegs.zero := by
  intro h
  have hh : hCounterIn r = 0 := congrArg VgaRegs.hCounter h
  have hv : vCounterIn r = 0 := congrArg VgaRegs.vCounter h
  have hb : vgaBlankNIn (hCounterIn r) (vCounterIn r) = false := congrArg VgaRegs.vgaBlankN h
  rw [hh, hv] at hb
  exact absurd hb (by decide)

theorem scanning_step (s : VideoRegs) (key0 : Bool) : Scanning (s.step key0) := by
  intro hr hc
  cases key0 with
  | false => exact absurd hr (by simp [VideoRegs.step, resetHIn])
  | true =>
    -- `VGA_CLK` is high after this edge, so it rose, and the controller was clocked
    cases hreset : s.resetH with
    | true =>
      rw [VideoRegs.step_held hreset] at hc
      exact absurd hc Bool.false_ne_true
    | false =>
      cases hclk : s.vgaClk with
      | true =>
        rw [VideoRegs.step_fall hclk] at hc
        exact absurd hc Bool.false_ne_true
      | false =>
        rw [VideoRegs.step_rise hreset hclk]
        exact s.vga.step_ne_zero

/-- Every reachable state is scanning. -/
theorem scanning_videoFrom (keys : ℕ → Bool) (n : ℕ) : Scanning (videoFrom keys n) :=
  trace_invariant (I := Scanning) (fun _ hc => absurd hc (by decide))
    (fun s key0 _ => scanning_step s key0) keys n

/-! ### The exact condition -/

/-- **`KEY[0]` restarts the controller in one phase only.**  From every reachable state with
    `Reset_h` low, a press of any length leaves the counters and pulses at 0 when `Reset_h`
    becomes 0 again if and only if `VGA_CLK` was low at the edge that sampled the press. -/
theorem pressKey0_restarts_iff (keys : ℕ → Bool) (n m : ℕ)
    (hr : (videoFrom keys n).resetH = false) :
    ((pressKey0 (m + 1) (videoFrom keys n)).resetH = false ∧
      (pressKey0 (m + 1) (videoFrom keys n)).vga = ⟨false, false, false, 0, 0⟩) ↔
      (videoFrom keys n).vgaClk = false := by
  constructor
  · rintro ⟨-, hzero⟩
    by_contra hc
    rw [Bool.not_eq_false] at hc
    rw [pressKey0_of_high hc] at hzero
    exact scanning_videoFrom keys n hr hc hzero
  · intro hc
    exact ⟨(pressKey0_vga _ m).1, pressKey0_of_low hr hc m⟩

/-- A press over two edges, after two edges with the key up. -/
theorem pressKey0_restarts_two :
    (pressKey0 2 (videoFrom (fun _ => true) 2)).resetH = false ∧
      (pressKey0 2 (videoFrom (fun _ => true) 2)).vga = ⟨false, false, false, 0, 0⟩ :=
  (pressKey0_restarts_iff (fun _ => true) 2 1 (by decide)).mpr (by decide)

/-- A press in the high phase leaves the controller where it was: at pixel (11, 0). -/
theorem pressKey0_unseen :
    (videoFrom (fun _ => true) 21).resetH = false ∧
      (pressKey0 2 (videoFrom (fun _ => true) 21)).vga = ⟨true, true, true, 11, 0⟩ := by
  decide +kernel

end NsShaft
