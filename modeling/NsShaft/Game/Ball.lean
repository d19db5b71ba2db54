import NsShaft.Game.Floor

namespace NsShaft

/-!
# `ball` — the player's registers and motion (`ball.sv`)

The motion half of module `ball`: the `always_comb` block up to the floor conditions, its
settled values, and the two `always_ff` blocks.  All positions are 10-bit registers; sums,
differences and the unsigned comparisons wrap mod 1024 exactly where the source's do.

* `alwaysComb` — one evaluation of the block.  It reads `belt_step` and `jump_step` before it
  assigns them, so it is a function of their previous values.
* `settled` — the values the block settles at; `alwaysComb_settled` and `settled_unique` show
  that they are its one fixed point, whatever values it started from.
* `Player.frame` — the register update of a frame edge.
* `BallRegs.step` — one rising edge of `Clk`.
-/

/-! ### Parameters of `ball` -/

def playerXSize : BitVec 10 := 30
def playerYSize : BitVec 10 := 45
def playerXCenter : BitVec 10 := 160
def playerYCenter : BitVec 10 := 100
def playerXMin : BitVec 10 := 0
def playerXMax : BitVec 10 := 319
def playerYMin : BitVec 10 := 0
def playerYMax : BitVec 10 := 479
def playerXStep : BitVec 10 := 3
def playerYStep : BitVec 10 := 2
def spikeHeight : BitVec 10 := 35
def dropHeight : BitVec 10 := 60
def floorXSize : BitVec 10 := 90
def jumpBoundary : BitVec 10 := 75

/-- `direction` with only the left key held. -/
def dirLeft : BitVec 2 := 0b10
/-- `direction` with only the right key held. -/
def dirRight : BitVec 2 := 0b01

/-! ### State -/

/-- The player's registers, `player_x_pos` to `is_spiked`. -/
@[ext] structure Player where
  xPos : BitVec 10
  yPos : BitVec 10
  xMotion : BitVec 10
  yMotion : BitVec 10
  jumpState : Bool
  isSpiked : Bool
deriving DecidableEq, Repr

/-- The variables that the motion half of the `always_comb` block assigns. -/
@[ext] structure BallComb where
  playerXPosIn : BitVec 10
  playerYPosIn : BitVec 10
  playerXMotionIn : BitVec 10
  playerYMotionIn : BitVec 10
  isSpikedBuf : Bool
  onJumpFloor : Bool
  onBeltFloor : BitVec 2
  beltStep : BitVec 10
  jumpStep : BitVec 10
deriving DecidableEq, Repr

/-- What the floor contact chain assigns. -/
structure FloorChain where
  playerYPosIn : BitVec 10
  playerYMotionIn : BitVec 10
  onBeltFloor : BitVec 2
  onJumpFloor : Bool
deriving DecidableEq, Repr

/-! ### The pieces of the `always_comb` block -/

/-- The y boundary chain: `player_y_pos_in` and `is_spiked_buf` before any floor is looked at. -/
def yBoundary (p : Player) : BitVec 10 × Bool :=
  -- at the bottom edge the player comes back at the top
  if p.yPos + playerYSize ≥ playerYMax then (playerYMin, false)
  -- among the spikes it is pushed down and marked
  else if p.yPos ≤ spikeHeight then (p.yPos + playerYStep, true)
  -- a marked player drops through the floors until it is past `drop_height`
  else if p.yPos ≥ 0 ∧ p.yPos ≤ spikeHeight + dropHeight ∧ p.isSpiked = true then
    (p.yPos + playerYStep, true)
  else if p.yPos ≥ spikeHeight + dropHeight ∧ p.isSpiked = true then (p.yPos + p.yMotion, false)
  else (p.yPos + p.yMotion, false)

/-- The edge guards on `player_x_pos_in`.  They look at the keys of this frame, while the step
    they let through is the motion registered in the frame before. -/
def xGuard (p : Player) (direction : BitVec 2) : BitVec 10 :=
  -- one-sided guards: a left key passes the right edge's guard, a right key the left edge's
  if p.xPos + playerXSize ≥ playerXMax ∧ direction ≠ dirLeft then p.xPos
  else if p.xPos ≤ playerXMin + 5 ∧ direction ≠ dirRight then p.xPos
  else p.xPos + p.xMotion

/-- `player_x_motion_in`: the key step plus the belt step. -/
def keyMotion (direction : BitVec 2) (beltStep : BitVec 10) : BitVec 10 :=
  if direction = dirLeft then -playerXStep + beltStep
  else if direction = dirRight then playerXStep + beltStep
  else beltStep

/-- The contact test of a floor at `(floorX, floorY)`. -/
def onFloor (p : Player) (floorX floorY : BitVec 10) : Bool :=
  p.isSpiked == false && decide (p.yPos + playerYSize - floorY ≥ 0)
    && decide (p.yPos + playerYSize - floorY ≤ floorYSize)
    && decide (p.xPos ≥ floorX - playerXSize) && decide (p.xPos ≤ floorXSize + floorX)

/-- The jump zone test of a jump floor at `(floorX, floorY)`. -/
def inJumpZone (p : Player) (floorX floorY : BitVec 10) : Bool :=
  p.isSpiked == false && decide (floorY - p.yPos ≥ 0)
    && decide (floorY - p.yPos ≤ jumpBoundary)
    && decide (p.xPos ≥ floorX - playerXSize) && decide (p.xPos ≤ floorXSize + floorX)

/-- Where a contact arm of floors 1 to 3 puts the player. -/
def snapTo (floorY : BitVec 10) : BitVec 10 := floorY - playerYSize - floorStep

/-- The floor contact chain, over the values assigned before it. -/
def floorChain (p : Player) (f : Floors) (yPosIn yMotionIn : BitVec 10) : FloorChain :=
  -- floor 1 is plain, floors 2 and 3 are belts
  if onFloor p (f.floorX 0) (f.floorY 0) then ⟨snapTo (f.floorY 0), 0, 0b00, false⟩
  else if onFloor p (f.floorX 1) (f.floorY 1) then ⟨snapTo (f.floorY 1), 0, 0b01, false⟩
  else if onFloor p (f.floorX 2) (f.floorY 2) then ⟨snapTo (f.floorY 2), 0, 0b10, false⟩
  -- floors 4 and 5 start a bounce and leave the position to the boundary chain
  else if onFloor p (f.floorX 3) (f.floorY 3) then ⟨yPosIn, yMotionIn, 0b00, true⟩
  else if onFloor p (f.floorX 4) (f.floorY 4) then ⟨yPosIn, yMotionIn, 0b00, true⟩
  -- above them a bounce that has started goes on
  else if inJumpZone p (f.floorX 3) (f.floorY 3) then ⟨yPosIn, yMotionIn, 0b00, p.jumpState⟩
  else if inJumpZone p (f.floorX 4) (f.floorY 4) then ⟨yPosIn, yMotionIn, 0b00, p.jumpState⟩
  else ⟨yPosIn, yMotionIn, 0b00, false⟩

/-- `belt_step` from `on_belt_floor`. -/
def beltStepOf (onBeltFloor : BitVec 2) : BitVec 10 :=
  if onBeltFloor = 0b10 then -2 else if onBeltFloor = 0b01 then 2 else 0

/-- `jump_step` from `jump_state`. -/
def jumpStepOf (jumpState : Bool) : BitVec 10 := if jumpState = true then -6 else 0

/-- One evaluation of the block.  `v` are the values before it: only `v.beltStep` and
    `v.jumpStep` are read, being assigned at the end of the block and used in its middle. -/
def alwaysComb (p : Player) (direction : BitVec 2) (f : Floors) (v : BallComb) : BallComb :=
  let b := yBoundary p
  let c := floorChain p f b.1 (playerYStep + v.jumpStep)
  { playerXPosIn := xGuard p direction
    playerYPosIn := c.playerYPosIn
    playerXMotionIn := keyMotion direction v.beltStep
    playerYMotionIn := c.playerYMotionIn
    isSpikedBuf := b.2
    onJumpFloor := c.onJumpFloor
    onBeltFloor := c.onBeltFloor
    beltStep := beltStepOf c.onBeltFloor
    jumpStep := jumpStepOf p.jumpState }

/-- The settled values of the block: its second evaluation, from all-zero variables. -/
def settled (p : Player) (direction : BitVec 2) (f : Floors) : BallComb :=
  alwaysComb p direction f (alwaysComb p direction f ⟨0, 0, 0, 0, false, false, 0, 0, 0⟩)

/-! ### Registers -/

/-- The player registers that the reset branch loads; `jump_state` is not among them. -/
def Player.reset (p : Player) (isSpikedBuf : Bool) : Player where
  xPos := playerXCenter
  yPos := playerYCenter
  xMotion := 0
  yMotion := 0
  jumpState := p.jumpState
  isSpiked := isSpikedBuf

/-- The update of a frame edge. -/
def Player.frame (p : Player) (direction : BitVec 2) (f : Floors) : Player where
  xPos := (settled p direction f).playerXPosIn
  yPos := (settled p direction f).playerYPosIn
  xMotion := (settled p direction f).playerXMotionIn
  yMotion := (settled p direction f).playerYMotionIn
  jumpState := (settled p direction f).onJumpFloor
  isSpiked := (settled p direction f).isSpikedBuf

/-- All registers of module `ball`. -/
@[ext] structure BallRegs where
  frameClkDelayed : Bool
  direction : BitVec 2
  player : Player
  random1 : BitVec 4
  random2 : BitVec 4
deriving DecidableEq, Repr

/-- The inputs of module `ball` that its registers read, the floor positions apart. -/
structure BallIn where
  reset : Bool
  frameClk : Bool
  key : BitVec 4
  raFlag1 : BitVec 4
  raFlag2 : BitVec 4

/-- `direction` as sampled from the keys: bit 1 is `~KEY[3]`, bit 0 is `~KEY[2]`. -/
def keyDirection (key : BitVec 4) : BitVec 2 := ~~~ key.extractLsb' 2 2

/-- One rising edge of `Clk`. -/
def BallRegs.step (r : BallRegs) (i : BallIn) (f : Floors) : BallRegs :=
  -- in reset `is_spiked` still samples the combinational block
  let buf := (settled r.player r.direction f).isSpikedBuf
  if i.reset then
    { frameClkDelayed := i.frameClk, direction := keyDirection i.key,
      player := r.player.reset buf, random1 := 0, random2 := 0 }
  else if frameClkRisingEdge i.frameClk r.frameClkDelayed then
    { frameClkDelayed := i.frameClk, direction := keyDirection i.key,
      player := r.player.frame r.direction f, random1 := i.raFlag1, random2 := i.raFlag2 }
  else
    { r with frameClkDelayed := i.frameClk, direction := keyDirection i.key }

/-! ### The block settles -/

/-- The contact chain sets the belt flag without looking at the values assigned before it. -/
theorem floorChain_onBeltFloor (p : Player) (f : Floors) (y m y' m' : BitVec 10) :
    (floorChain p f y m).onBeltFloor = (floorChain p f y' m').onBeltFloor := by
  unfold floorChain
  -- every arm sets the flag to a constant
  repeat' split
  all_goals rfl

/-- After one evaluation the two steps have their final values. -/
theorem alwaysComb_steps (p : Player) (direction : BitVec 2) (f : Floors) (v : BallComb) :
    (alwaysComb p direction f v).beltStep = (settled p direction f).beltStep ∧
      (alwaysComb p direction f v).jumpStep = (settled p direction f).jumpStep :=
  ⟨congrArg beltStepOf (floorChain_onBeltFloor p f _ _ _ _), rfl⟩

/-- An evaluation reads nothing of the previous values but the two steps. -/
theorem alwaysComb_congr (p : Player) (direction : BitVec 2) (f : Floors) {v w : BallComb}
    (hb : v.beltStep = w.beltStep) (hj : v.jumpStep = w.jumpStep) :
    alwaysComb p direction f v = alwaysComb p direction f w := by
  unfold alwaysComb
  rw [hb, hj]

/-- The second evaluation settles the block, whatever its variables held. -/
theorem alwaysComb_twice (p : Player) (direction : BitVec 2) (f : Floors) (v : BallComb) :
    alwaysComb p direction f (alwaysComb p direction f v) = settled p direction f := by
  obtain ⟨hb, hj⟩ := alwaysComb_steps p direction f v
  obtain ⟨hb', hj'⟩ := alwaysComb_steps p direction f ⟨0, 0, 0, 0, false, false, 0, 0, 0⟩
  exact alwaysComb_congr p direction f (hb.trans hb'.symm) (hj.trans hj'.symm)

/-- **Settling.** The settled values are a fixed point of the block. -/
theorem alwaysComb_settled (p : Player) (direction : BitVec 2) (f : Floors) :
    alwaysComb p direction f (settled p direction f) = settled p direction f :=
  alwaysComb_twice p direction f _

/-- **Uniqueness.** The block has no other fixed point. -/
theorem settled_unique (p : Player) (direction : BitVec 2) (f : Floors) {v : BallComb}
    (hv : alwaysComb p direction f v = v) : v = settled p direction f := by
  rw [← alwaysComb_twice p direction f v, hv, hv]

end NsShaft
