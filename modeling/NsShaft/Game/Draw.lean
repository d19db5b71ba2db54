import NsShaft.Game.Contact
import NsShaft.Hdl.Sprite
import NsShaft.Hdl.Window

namespace NsShaft

open Hdl

/-!
# The sprites of `ball`

The drawing half of the `always_comb` block of module `ball`: which pixels belong to the
player and to the floors, and at which cell of their sprite ROM.  The window tests are
inclusive, `ownsWord_iff` says which pixels still have a cell of their own.
-/

/-- `(DrawX-x) + (DrawY-y)*xSize`, evaluated at the 19 bits of the address it is assigned to. -/
def spriteAddress (drawX drawY x y xSize : BitVec 10) : BitVec 19 :=
  (drawX.setWidth 19 - x.setWidth 19) + (drawY.setWidth 19 - y.setWidth 19) * xSize.setWidth 19

/-- Inside the window of a sprite nothing wraps: the address is that of the cell. -/
theorem spriteAddress_toNat {drawX drawY x y xSize ySize : BitVec 10}
    (hx : x.toNat ≤ drawX.toNat ∧ drawX.toNat ≤ x.toNat + xSize.toNat)
    (hy : y.toNat ≤ drawY.toNat ∧ drawY.toNat ≤ y.toNat + ySize.toNat)
    (hsize : xSize.toNat + xSize.toNat * ySize.toNat < 2 ^ 19) :
    (spriteAddress drawX drawY x y xSize).toNat
      = cellAddress xSize.toNat (drawX.toNat - x.toNat) (drawY.toNat - y.toNat) := by
  have hdx : (drawX.setWidth 19 - x.setWidth 19).toNat = drawX.toNat - x.toNat := by
    bv_omega
  have hdy : (drawY.setWidth 19 - y.setWidth 19).toNat = drawY.toNat - y.toNat := by
    bv_omega
  have hw : (xSize.setWidth 19).toNat = xSize.toNat := by
    bv_omega
  have hrow : xSize.toNat * (drawY.toNat - y.toNat) ≤ xSize.toNat * ySize.toNat :=
    Nat.mul_le_mul_left _ (by omega)
  unfold spriteAddress cellAddress
  rw [BitVec.toNat_add, BitVec.toNat_mul, hdx, hdy, hw, Nat.mul_comm (drawY.toNat - y.toNat),
    Nat.mod_eq_of_lt (b := 2 ^ 19) (a := xSize.toNat * _) (by omega), Nat.mod_eq_of_lt (by omega)]

/-- The pixel `(drawX, drawY)` has a word of a sprite memory to itself: its address lies in the
    memory and no other claimed pixel has the same one. -/
def OwnsWord (claims : BitVec 10 → BitVec 10 → Bool) (address : BitVec 10 → BitVec 10 → BitVec 19)
    (size : ℕ) (drawX drawY : BitVec 10) : Prop :=
  (address drawX drawY).toNat < size ∧
    ∀ drawX' drawY', claims drawX' drawY' = true → address drawX' drawY' = address drawX drawY →
      drawX' = drawX ∧ drawY' = drawY

/-- **Own words.** A pixel in the window of a sprite that does not wrap has a word to itself
    exactly if it is off the right column, off the bottom row, and, in the left column, in the
    first row. -/
theorem ownsWord_iff (x y xSize ySize : BitVec 10) (hx : x.toNat + xSize.toNat < 1024)
    (hy : y.toNat + ySize.toNat < 1024) (hpos : 0 < xSize.toNat)
    (hsize : xSize.toNat + xSize.toNat * ySize.toNat < 2 ^ 19) {drawX drawY : BitVec 10}
    (hin : inWindow drawX drawY x y xSize ySize = true) :
    OwnsWord (fun drawX drawY => inWindow drawX drawY x y xSize ySize)
        (fun drawX drawY => spriteAddress drawX drawY x y xSize) (xSize.toNat * ySize.toNat)
        drawX drawY ↔
      drawX - x < xSize ∧ drawY - y < ySize ∧ (drawX = x → drawY = y) := by
  have hbox : ∀ {px py : BitVec 10}, inWindow px py x y xSize ySize = true ↔
      (x.toNat ≤ px.toNat ∧ px.toNat ≤ x.toNat + xSize.toNat) ∧
        y.toNat ≤ py.toNat ∧ py.toNat ≤ y.toNat + ySize.toNat := inWindow_iff hx hy
  obtain ⟨hcol, hrow⟩ := hbox.mp hin
  -- the condition on the registers, as one on the column and row within the sprite
  have hcond : (drawX - x < xSize ∧ drawY - y < ySize ∧ (drawX = x → drawY = y)) ↔
      drawX.toNat - x.toNat < xSize.toNat ∧ drawY.toNat - y.toNat < ySize.toNat ∧
        (drawX.toNat - x.toNat = 0 → drawY.toNat - y.toNat = 0) := by
    have hleft : drawX = x ↔ drawX.toNat - x.toNat = 0 := by bv_omega
    have htop : drawY = y ↔ drawY.toNat - y.toNat = 0 := by bv_omega
    rw [hleft, htop]
    refine and_congr ?_ (and_congr ?_ Iff.rfl) <;> bv_omega
  rw [hcond, ← cellAddress_own_iff hpos (by omega) (by omega)]
  unfold OwnsWord
  rw [spriteAddress_toNat hcol hrow hsize]
  refine and_congr Iff.rfl ⟨?_, ?_⟩
  · -- a cell of the window is a pixel
    intro hone dx' hdx' dy' hdy' heq
    obtain ⟨px, hpx⟩ := exists_toNat_eq_add (x := x) (d := dx') (by omega)
    obtain ⟨py, hpy⟩ := exists_toNat_eq_add (x := y) (d := dy') (by omega)
    have hin' : inWindow px py x y xSize ySize = true := hbox.mpr ⟨by omega, by omega⟩
    obtain ⟨hcol', hrow'⟩ := hbox.mp hin'
    have haddress : (spriteAddress px py x y xSize).toNat
        = (spriteAddress drawX drawY x y xSize).toNat := by
      rw [spriteAddress_toNat hcol' hrow' hsize, spriteAddress_toNat hcol hrow hsize, hpx, hpy,
        Nat.add_sub_cancel_left, Nat.add_sub_cancel_left, heq]
    obtain ⟨rfl, rfl⟩ := hone _ _ hin' (BitVec.eq_of_toNat_eq haddress)
    omega
  · -- a pixel of the window is a cell, and equal addresses are equal cells
    intro hone drawX' drawY' hin' heq
    obtain ⟨hcol', hrow'⟩ := hbox.mp hin'
    have hcells := congrArg BitVec.toNat heq
    rw [spriteAddress_toNat hcol' hrow' hsize, spriteAddress_toNat hcol hrow hsize] at hcells
    obtain ⟨hdx, hdy⟩ := hone _ (by omega) _ (by omega) hcells
    exact ⟨BitVec.eq_of_toNat_eq (by omega), BitVec.eq_of_toNat_eq (by omega)⟩

/-- `is_player` and `stand_read_address`. -/
structure DrawPlayer where
  isPlayer : Bool
  standReadAddress : BitVec 19
deriving DecidableEq, Repr

/-- `is_floor` and `floor_read_address`. -/
structure DrawFloor where
  isFloor : BitVec 3
  floorReadAddress : BitVec 19
deriving DecidableEq, Repr

/-- Draw the player. -/
def drawPlayer (p : Player) (drawX drawY : BitVec 10) : DrawPlayer :=
  -- the tests compare with `<=`: one column and one row more than the sprite has
  if inWindow drawX drawY p.xPos p.yPos playerXSize playerYSize then
    ⟨true, spriteAddress drawX drawY p.xPos p.yPos playerXSize⟩
  else ⟨false, 0⟩

/-- The window test of floor `i`. -/
def floorPixel (f : Floors) (drawX drawY : BitVec 10) (i : Fin 5) : Bool :=
  inWindow drawX drawY (f.floorX i) (f.floorY i) floorXSize floorYSize

/-- The address of a pixel in the sprite of floor `i`. -/
def floorAddress (f : Floors) (drawX drawY : BitVec 10) (i : Fin 5) : BitVec 19 :=
  spriteAddress drawX drawY (f.floorX i) (f.floorY i) floorXSize

/-- Draw the floors: the chain over floors 1 to 5. -/
def drawFloor (f : Floors) (drawX drawY : BitVec 10) : DrawFloor :=
  if floorPixel f drawX drawY 0 then ⟨0b001, floorAddress f drawX drawY 0⟩
  else if floorPixel f drawX drawY 1 then ⟨0b010, floorAddress f drawX drawY 1⟩
  else if floorPixel f drawX drawY 2 then ⟨0b011, floorAddress f drawX drawY 2⟩
  else if floorPixel f drawX drawY 3 then ⟨0b100, floorAddress f drawX drawY 3⟩
  else if floorPixel f drawX drawY 4 then ⟨0b101, floorAddress f drawX drawY 4⟩
  else ⟨0b000, 0⟩

/-- What the draw arm of floor `i` assigns. -/
def drawFloorBody (f : Floors) (drawX drawY : BitVec 10) (i : Fin 5) : DrawFloor :=
  ⟨BitVec.ofNat 3 (i.val + 1), floorAddress f drawX drawY i⟩

/-- The draw chain with its five arms in the order `order`. -/
def drawFloorIn (order : List (Fin 5)) (f : Floors) (drawX drawY : BitVec 10) : DrawFloor :=
  chain (floorPixel f drawX drawY) (drawFloorBody f drawX drawY) ⟨0b000, 0⟩ order

/-- The source's chain draws the floors in the order 1 to 5. -/
theorem drawFloor_eq (f : Floors) (drawX drawY : BitVec 10) :
    drawFloor f drawX drawY = drawFloorIn floorOrder f drawX drawY := by
  simp only [drawFloorIn, floorOrder, chain_cons, chain_nil]
  rfl

end NsShaft
