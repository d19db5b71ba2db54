import NsShaft.Hdl.Machine
import NsShaft.Hdl.Counter

namespace NsShaft

open Hdl

/-!
# `VGA_controller` — coordinates and sync pulses (`VGA_controller.sv`)

The registers of module `VGA_controller`, clocked by `VGA_CLK`, and their closed form.

* `VgaRegs.step` — one rising edge of `VGA_CLK`.
* `vgaAt` — the registers `k ≥ 1` edges after a reset edge, as functions of `k`: the
  coordinates are the digits of `k` in the mixed radix 800, 525, and the registered pulses are
  decoded from the coordinates of the same edge.
* `vga_run_eq` — every run without reset follows the closed form.
-/

/-! ### Parameters and registers -/

/-- `H_TOTAL`: pixels per line, front and back porch included. -/
def hTotal : BitVec 10 := 800
/-- `V_TOTAL`: lines per frame, front and back porch included. -/
def vTotal : BitVec 10 := 525

/-- The registers of `VGA_controller`; `DrawX` is `hCounter` and `DrawY` is `vCounter`. -/
@[ext] structure VgaRegs where
  vgaHs : Bool
  vgaVs : Bool
  vgaBlankN : Bool
  hCounter : BitVec 10
  vCounter : BitVec 10
deriving DecidableEq, Repr

/-- The reset values. -/
def VgaRegs.zero : VgaRegs := ⟨false, false, false, 0, 0⟩

/-- `h_counter_in`. -/
def hCounterIn (r : VgaRegs) : BitVec 10 :=
  if r.hCounter + 1 = hTotal then 0 else r.hCounter + 1

/-- `v_counter_in`. -/
def vCounterIn (r : VgaRegs) : BitVec 10 :=
  if r.hCounter + 1 = hTotal then
    if r.vCounter + 1 = vTotal then 0 else r.vCounter + 1
  else r.vCounter

/-- `VGA_HS_in`: low for the 96 pixels from 656. -/
def vgaHsIn (h : BitVec 10) : Bool := if h ≥ 656 ∧ h < 752 then false else true

/-- `VGA_VS_in`: low for the lines 490 and 491. -/
def vgaVsIn (v : BitVec 10) : Bool := if v ≥ 490 ∧ v < 492 then false else true

/-- `VGA_BLANK_N_in`: high inside the 640x480 screen. -/
def vgaBlankNIn (h v : BitVec 10) : Bool := if h < 640 ∧ v < 480 then true else false

/-- One rising edge of `VGA_CLK`.  The pulses are decoded from the *next* coordinates. -/
def VgaRegs.step (r : VgaRegs) (reset : Bool) : VgaRegs :=
  if reset then VgaRegs.zero
  else
    { vgaHs := vgaHsIn (hCounterIn r)
      vgaVs := vgaVsIn (vCounterIn r)
      vgaBlankN := vgaBlankNIn (hCounterIn r) (vCounterIn r)
      hCounter := hCounterIn r
      vCounter := vCounterIn r }

/-! ### Closed form -/

/-- Column of the pixel reached by `k` edges. -/
def drawXAt (k : ℕ) : BitVec 10 := BitVec.ofNat 10 (k % 800)

/-- Line of the pixel reached by `k` edges. -/
def drawYAt (k : ℕ) : BitVec 10 := BitVec.ofNat 10 (k / 800 % 525)

/-- The registers `k ≥ 1` edges after the reset edge. -/
def vgaAt (k : ℕ) : VgaRegs where
  vgaHs := vgaHsIn (drawXAt k)
  vgaVs := vgaVsIn (drawYAt k)
  vgaBlankN := vgaBlankNIn (drawXAt k) (drawYAt k)
  hCounter := drawXAt k
  vCounter := drawYAt k

theorem drawXAt_toNat (k : ℕ) : (drawXAt k).toNat = k % 800 := by
  unfold drawXAt
  rw [BitVec.toNat_ofNat]
  omega

theorem drawYAt_toNat (k : ℕ) : (drawYAt k).toNat = k / 800 % 525 := by
  unfold drawYAt
  rw [BitVec.toNat_ofNat]
  omega

/-- **Counter step.** The next coordinates of pixel `k` are those of pixel `k + 1`. -/
theorem counterIn_at {r : VgaRegs} {k : ℕ} (hh : r.hCounter = drawXAt k)
    (hv : r.vCounter = drawYAt k) :
    hCounterIn r = drawXAt (k + 1) ∧ vCounterIn r = drawYAt (k + 1) := by
  have hx := drawXAt_toNat k
  have hy := drawYAt_toNat k
  have hx' := drawXAt_toNat (k + 1)
  have hy' := drawYAt_toNat (k + 1)
  rw [succ_mod_eq (by decide)] at hx'
  rw [succ_div_mod_eq (by decide) (by decide)] at hy'
  have hwrap : drawXAt k + 1 = 800 ↔ k % 800 + 1 = 800 := by bv_omega
  have hwrap' : drawYAt k + 1 = 525 ↔ k / 800 % 525 + 1 = 525 := by bv_omega
  unfold hCounterIn vCounterIn hTotal vTotal
  rw [hh, hv]
  simp only [hwrap, hwrap']
  refine ⟨BitVec.eq_of_toNat_eq ?_, BitVec.eq_of_toNat_eq ?_⟩
  · -- the column wraps at the end of a line
    rw [hx']
    split <;> bv_omega
  · -- the line moves on at the end of a line and wraps at the end of the frame
    rw [hy']
    split_ifs <;> bv_omega

/-- One edge without reset from pixel `k`. -/
theorem step_eq_vgaAt {r : VgaRegs} {k : ℕ} (hh : r.hCounter = drawXAt k)
    (hv : r.vCounter = drawYAt k) : r.step false = vgaAt (k + 1) := by
  obtain ⟨hx, hy⟩ := counterIn_at hh hv
  unfold VgaRegs.step vgaAt
  simp only [Bool.false_eq_true, if_false, hx, hy]

/-- **Closed form.** `k + 1` edges without reset after the reset edge. -/
theorem vga_run_eq (k : ℕ) :
    trace VgaRegs.step VgaRegs.zero (fun _ => false) (k + 1) = vgaAt (k + 1) := by
  induction k with
  -- the reset values have the coordinates of pixel 0, though not its pulses
  | zero => exact step_eq_vgaAt (k := 0) rfl rfl
  | succ k ih =>
    rw [trace_succ, ih]
    exact step_eq_vgaAt rfl rfl

/-! ### The pulses of the closed form -/

theorem vgaHsIn_eq_false {h : BitVec 10} : vgaHsIn h = false ↔ 656 ≤ h.toNat ∧ h.toNat < 752 := by
  unfold vgaHsIn
  split_ifs with hin
  · exact iff_of_true rfl ⟨by bv_omega, by bv_omega⟩
  · refine iff_of_false (by decide) (fun hh => hin ⟨?_, ?_⟩) <;> bv_omega

theorem vgaVsIn_eq_false {v : BitVec 10} : vgaVsIn v = false ↔ 490 ≤ v.toNat ∧ v.toNat < 492 := by
  unfold vgaVsIn
  split_ifs with h
  · exact iff_of_true rfl ⟨by bv_omega, by bv_omega⟩
  · refine iff_of_false (by decide) (fun hv => h ⟨?_, ?_⟩) <;> bv_omega

theorem vgaBlankNIn_eq_true {h v : BitVec 10} :
    vgaBlankNIn h v = true ↔ h.toNat < 640 ∧ v.toNat < 480 := by
  unfold vgaBlankNIn
  split_ifs with hin
  · exact iff_of_true rfl ⟨by bv_omega, by bv_omega⟩
  · refine iff_of_false (by decide) (fun hv => hin ⟨?_, ?_⟩) <;> bv_omega

theorem vgaAt_vgaVs (k : ℕ) :
    (vgaAt k).vgaVs = false ↔ 490 ≤ k / 800 % 525 ∧ k / 800 % 525 < 492 := by
  rw [← drawYAt_toNat]
  exact vgaVsIn_eq_false

theorem vgaAt_vgaBlankN (k : ℕ) :
    (vgaAt k).vgaBlankN = true ↔ k % 800 < 640 ∧ k / 800 % 525 < 480 := by
  rw [← drawXAt_toNat, ← drawYAt_toNat]
  exact vgaBlankNIn_eq_true

end NsShaft
