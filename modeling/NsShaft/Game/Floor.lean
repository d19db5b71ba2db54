import NsShaft.Hdl.Machine
import Mathlib.Algebra.GroupWithZero.Nat
import Mathlib.Data.Vector.Defs

namespace NsShaft

/-!
# `floor` — the five moving floors (`floor_control.sv`)

The registers of module `floor`, its combinational next position and its two `always_ff`
blocks.  Positions are 10-bit registers and every operator wraps mod 1024, as in the source.

* `FloorRegs.step` — one rising edge of `Clk`.
* `Floors.frame` — the register update of a frame edge alone, `floor_y_pos <= floor_y_pos_in`.
-/

/-! ### Parameters of `floor` -/

/-- `floor_step`: how far a floor rises in a frame. -/
def floorStep : BitVec 10 := 1
/-- `floor_y_min`: topmost floor on the Y axis. -/
def floorYMin : BitVec 10 := 0
/-- `floor_y_max`: bottommost floor on the Y axis. -/
def floorYMax : BitVec 10 := 479
/-- `floor_y_size` of module `floor`, and `floor_Y_size` of module `ball`. -/
def floorYSize : BitVec 10 := 20

/-! ### Registers and the combinational step -/

/-- The position registers `floor_x_pos`, `floor_y_pos` of module `floor`. -/
@[ext] structure Floors where
  xPos : Vector (BitVec 10) 5
  yPos : Vector (BitVec 10) 5
deriving DecidableEq, Repr

/-- The five floors are numbered 0 to 4. -/
instance instNeZeroFive : NeZero 5 := ⟨Nat.succ_ne_zero 4⟩

/-- The wire `floor_N_X` of `ball`, which is `floor_x[N - 1]`. -/
def Floors.floorX (f : Floors) (i : Fin 5) : BitVec 10 := f.xPos.get i

/-- The wire `floor_N_Y` of `ball`, which is `floor_y[N - 1]`. -/
def Floors.floorY (f : Floors) (i : Fin 5) : BitVec 10 := f.yPos.get i

/-- The positions the reset branch loads. -/
def Floors.start : Floors where
  xPos := #v[60, 80, 50, 190, 140]
  yPos := #v[120, 200, 300, 350, 420]

/-- One entry of `floor_y_pos_in`: up by `floor_step`, or back to the bottom from the top. -/
def floorYPosIn (y : BitVec 10) : BitVec 10 :=
  if y ≤ floorYMin then floorYMax - floorYSize else y - floorStep

/-- The update of a frame edge: all five heights step, the columns keep their value. -/
def Floors.frame (f : Floors) : Floors where
  xPos := f.xPos
  yPos := f.yPos.map floorYPosIn

/-! ### One `Clk` edge -/

/-- The inputs of module `floor` that its registers read. -/
structure FloorIn where
  reset : Bool
  frameClk : Bool

/-- All registers of module `floor`. -/
@[ext] structure FloorRegs where
  frameClkDelayed : Bool
  pos : Floors
deriving DecidableEq, Repr

/-- `frame_clk_rising_edge`, the edge detector shared by `floor` and `ball`. -/
def frameClkRisingEdge (frameClk frameClkDelayed : Bool) : Bool :=
  frameClk == true && frameClkDelayed == false

/-- One rising edge of `Clk`. -/
def FloorRegs.step (r : FloorRegs) (i : FloorIn) : FloorRegs where
  frameClkDelayed := i.frameClk
  pos :=
    if i.reset then Floors.start
    else if frameClkRisingEdge i.frameClk r.frameClkDelayed then r.pos.frame
    else r.pos

/-! ### Spec lemmas -/

@[simp] theorem frameClkRisingEdge_eq_true (c d : Bool) :
    frameClkRisingEdge c d = true ↔ c = true ∧ d = false := by
  cases c <;> cases d <;> decide

@[simp] theorem Floors.frame_floorY (f : Floors) (i : Fin 5) :
    f.frame.floorY i = floorYPosIn (f.floorY i) :=
  Vector.getElem_map floorYPosIn i.isLt

/-- The height step on the numeric value of the register. -/
theorem floorYPosIn_toNat (y : BitVec 10) :
    (floorYPosIn y).toNat = if y.toNat = 0 then 459 else y.toNat - 1 := by
  unfold floorYPosIn floorYMin floorYMax floorYSize floorStep
  by_cases h : y.toNat = 0
  · have hy : y ≤ 0 := by bv_omega
    rw [if_pos hy, if_pos h]; rfl
  · have hy : ¬ y ≤ 0 := by bv_omega
    rw [if_neg hy, if_neg h]; bv_omega

end NsShaft
