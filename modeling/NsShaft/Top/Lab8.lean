import NsShaft.Game.Frame
import NsShaft.Video.Clock
import NsShaft.Video.Render

namespace NsShaft

open Hdl

/-!
# `lab8` — the game wired to the video controller (`lab8.sv`)

The registers of the top level that the picture depends on, at `Clk` granularity: the video
clocking, the game, the score counter and the output registers of the three sprite ROMs.
`KEY[0]` resets the video side, `KEY[1]` the game; `frame_clk` of `ball` and `floor` is `VGA_VS`.

* `Lab8.step` — one rising edge of `Clk`.
* `Lab8.vgaRgb` — the colour outputs in a cycle.
* `lab8Run` — the run from a video reset with both reset keys released.
-/

/-- The registers behind the picture. -/
structure Lab8 where
  video : VideoRegs
  game : GameRegs
  curScore : BitVec 51
  standDataOut : Word
  floorDataOut : Word
  charDataOut : Word

namespace Lab8

/-! ### Combinational signals of a cycle -/

/-- `DrawX`. -/
def drawX (s : Lab8) : BitVec 10 := s.video.vga.hCounter
/-- `DrawY`. -/
def drawY (s : Lab8) : BitVec 10 := s.video.vga.vCounter
/-- The player layer of the current pixel. -/
def player (s : Lab8) : DrawPlayer := drawPlayer s.game.ball.player s.drawX s.drawY
/-- The floor layer of the current pixel. -/
def floor (s : Lab8) : DrawFloor := drawFloor s.game.floor.pos s.drawX s.drawY
/-- The character layer of the current pixel. -/
def char (s : Lab8) : DrawChar := scoreboard (scoreDigits s.curScore) s.drawX s.drawY

/-- `VGA_R`, `VGA_G`, `VGA_B`: the layer flags are combinational, the ROM words registered. -/
def vgaRgb (s : Lab8) : Option Rgb :=
  colorMapper s.floor.isFloor s.drawX s.standDataOut s.floorDataOut s.charDataOut s.char.isChar
    (bgCreate s.drawX s.drawY) s.player.isPlayer

/-- `frame_clk_rising_edge` of `ball`. -/
def ballEdge (s : Lab8) : Bool :=
  frameClkRisingEdge s.video.vga.vgaVs s.game.ball.frameClkDelayed

/-- `frame_clk_rising_edge` of `floor`. -/
def floorEdge (s : Lab8) : Bool :=
  frameClkRisingEdge s.video.vga.vgaVs s.game.floor.frameClkDelayed

/-! ### One `Clk` edge -/

/-- What the game's registers sample. -/
def gameIn (s : Lab8) (key : BitVec 4) : BallIn where
  reset := !key.getLsbD 1
  frameClk := s.video.vga.vgaVs
  key := key
  raFlag1 := raFlag1 s.curScore
  raFlag2 := raFlag2 s.curScore

/-- One rising edge of `Clk`. -/
def step (roms : Roms) (s : Lab8) (key : BitVec 4) : Lab8 where
  video := s.video.step (key.getLsbD 0)
  game := s.game.step (s.gameIn key)
  curScore := scoreKeeperNext s.curScore (!key.getLsbD 1)
  -- the ROMs sample the addresses of this cycle and show their words in the next
  standDataOut := standWord roms s.player.standReadAddress
  floorDataOut := floorBuf roms s.floor.isFloor s.floor.floorReadAddress
  charDataOut := charWord roms s.char.charIdx s.char.charReadAddress

end Lab8

/-! ### Runs after a video reset -/

/-- `KEY` with the two reset buttons released and the given samples of `KEY[3:2]`. -/
def playKey (moves : BitVec 2) : BitVec 4 := moves ++ 0b11#2

@[simp] theorem playKey_key0 (moves : BitVec 2) : (playKey moves).getLsbD 0 = true := by
  revert moves
  decide

@[simp] theorem playKey_key1 (moves : BitVec 2) : (playKey moves).getLsbD 1 = true := by
  revert moves
  decide

/-- The state `n` edges after a video reset: the video registers start from their reset values,
    everything else from arbitrary contents, and no reset button is pressed. -/
def lab8Run (roms : Roms) (s : Lab8) (moves : ℕ → BitVec 2) (n : ℕ) : Lab8 :=
  trace (Lab8.step roms) { s with video := VideoRegs.released } (fun k => playKey (moves k)) n

variable (roms : Roms) (s : Lab8) (moves : ℕ → BitVec 2)

theorem lab8Run_succ (n : ℕ) :
    lab8Run roms s moves (n + 1) = (lab8Run roms s moves n).step roms (playKey (moves n)) := rfl

/-- The video side of a run follows its closed form. -/
theorem lab8Run_video (n : ℕ) : (lab8Run roms s moves n).video = videoAt n := by
  rw [← video_run_eq]
  induction n with
  | zero => rfl
  | succ n ih =>
    rw [lab8Run_succ, trace_succ, ← ih]
    show (lab8Run roms s moves n).video.step _ = _
    rw [playKey_key0]

end NsShaft
