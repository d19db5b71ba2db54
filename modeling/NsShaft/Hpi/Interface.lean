import Mathlib.Data.List.Basic

namespace NsShaft

/-!
# `hpi_io_intf` — the registers between the NIOS ports and the OTG chip

`hpi_io_intf` copies the five PIO outputs of the NIOS system to the pins of the OTG chip through
registers, and drives `OTG_DATA` from a register while the *unregistered* `from_sw_w` is low.

* `Pio` — the PIO outputs as `from_sw_*` sees them.
* `HpiRegs.step` — one rising edge of `Clk`.
* `otgDrive` — what the FPGA drives on `OTG_DATA` within a cycle.

A strobe is a `Bool`, `false` for the asserted level 0.  A word on a bus is an
`Option (BitVec 16)`, where `none` stands for a bus at high impedance.
-/

/-- The PIO outputs read by `hpi_io_intf`. -/
@[ext] structure Pio where
  address : BitVec 2
  data : BitVec 16
  r : Bool
  w : Bool
  cs : Bool
deriving DecidableEq, Repr

/-- The registers of `hpi_io_intf`. -/
@[ext] structure HpiRegs where
  fromSwDataOutBuffer : BitVec 16
  otgAddr : BitVec 2
  otgRdN : Bool
  otgWrN : Bool
  otgCsN : Bool
  fromSwDataIn : Option (BitVec 16)
deriving DecidableEq, Repr

/-- The registers after an edge with `Reset`. -/
def HpiRegs.cleared : HpiRegs where
  fromSwDataOutBuffer := 0
  otgAddr := 0
  otgRdN := true
  otgWrN := true
  otgCsN := true
  fromSwDataIn := some 0

/-- One rising edge of `Clk`, reading `Reset`, the PIO outputs and the word on `OTG_DATA`. -/
def HpiRegs.step (_ : HpiRegs) (reset : Bool) (pio : Pio) (otgData : Option (BitVec 16)) :
    HpiRegs :=
  if reset then HpiRegs.cleared
  else
    { fromSwDataOutBuffer := pio.data
      otgAddr := pio.address
      otgRdN := pio.r
      otgWrN := pio.w
      otgCsN := pio.cs
      fromSwDataIn := otgData }

/-- The word the FPGA drives on `OTG_DATA`: the buffer while `from_sw_w` is low.  The enable is
    the PIO output itself, not the registered `OTG_WR_N`. -/
def otgDrive (pio : Pio) (regs : HpiRegs) : Option (BitVec 16) :=
  if !pio.w then some regs.fromSwDataOutBuffer else none

/-- An edge without `Reset` copies the PIO outputs and the bus. -/
theorem HpiRegs.step_run (regs : HpiRegs) (pio : Pio) (otgData : Option (BitVec 16)) :
    regs.step false pio otgData
      = ⟨pio.data, pio.address, pio.r, pio.w, pio.cs, otgData⟩ := rfl

/-- An edge with `Reset` loads the reset values. -/
theorem HpiRegs.step_reset (regs : HpiRegs) (pio : Pio) (otgData : Option (BitVec 16)) :
    regs.step true pio otgData = HpiRegs.cleared := rfl

theorem otgDrive_of_high {pio : Pio} (regs : HpiRegs) (hw : pio.w = true) :
    otgDrive pio regs = none := by
  simp [otgDrive, hw]

end NsShaft
