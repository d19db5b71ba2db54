import NsShaft.Game.Ball
import Mathlib.Tactic.SplitIfs

namespace NsShaft

open Hdl

/-!
# The game: `ball` and `floor` on one clock

* `GameRegs.step` — one `Clk` edge of the pair, each module reading the other's registers as
  they were before the edge.
* `Game.frame` — one frame of the pair: what a frame edge does to the player and the floors.
* `gameRun_eq_frames` — a `Clk` run without reset is the frame run over the directions latched
  at its frame edges, so a property of frame runs is one of the clocked modules.
-/

/-! ### Frames -/

/-- The positions of the game: what the frame edges move. -/
@[ext] structure Game where
  player : Player
  floors : Floors
deriving DecidableEq, Repr

/-- One frame: both modules update from the positions before it. -/
def Game.frame (g : Game) (direction : BitVec 2) : Game where
  player := g.player.frame direction g.floors
  floors := g.floors.frame

/-- The game as `KEY[1]` reset leaves it, with `jump_state = 0` and `is_spiked = 0`. -/
def Game.start : Game where
  player := ⟨playerXCenter, playerYCenter, 0, 0, false, false⟩
  floors := Floors.start

/-- The game after `n` frames with the given directions. -/
def gameAt (dirs : ℕ → BitVec 2) (n : ℕ) : Game := trace Game.frame Game.start dirs n

/-! ### `Clk` edges -/

/-- The registers of the pair. -/
@[ext] structure GameRegs where
  ball : BallRegs
  floor : FloorRegs
deriving DecidableEq, Repr

/-- The registers after a reset that found `jump_state = 0`. -/
def GameRegs.start : GameRegs where
  ball := ⟨false, 0, Game.start.player, 0, 0⟩
  floor := ⟨false, Floors.start⟩

/-- One rising edge of `Clk`: both modules read the registers before the edge. -/
def GameRegs.step (r : GameRegs) (i : BallIn) : GameRegs where
  ball := r.ball.step i r.floor.pos
  floor := r.floor.step ⟨i.reset, i.frameClk⟩

/-- The positions held by the registers. -/
def GameRegs.game (r : GameRegs) : Game := ⟨r.ball.player, r.floor.pos⟩

/-- The direction a `Clk` edge plays a frame with, if it is a frame edge. -/
def GameRegs.frameTick (r : GameRegs) (i : BallIn) : Option (BitVec 2) :=
  if frameClkRisingEdge i.frameClk r.ball.frameClkDelayed then some r.ball.direction else none

@[simp] theorem GameRegs.step_ball_frameClkDelayed (r : GameRegs) (i : BallIn) :
    (r.step i).ball.frameClkDelayed = i.frameClk := by
  unfold GameRegs.step BallRegs.step
  dsimp only
  split_ifs <;> rfl

@[simp] theorem GameRegs.step_floor_frameClkDelayed (r : GameRegs) (i : BallIn) :
    (r.step i).floor.frameClkDelayed = i.frameClk := rfl

@[simp] theorem GameRegs.step_ball_direction (r : GameRegs) (i : BallIn) :
    (r.step i).ball.direction = keyDirection i.key := by
  unfold GameRegs.step BallRegs.step
  dsimp only
  split_ifs <;> rfl

/-- The player after a `Clk` edge: reset, moved by a frame, or left alone. -/
theorem GameRegs.step_player (r : GameRegs) (i : BallIn) :
    (r.step i).ball.player =
      if i.reset then
        r.ball.player.reset (settled r.ball.player r.ball.direction r.floor.pos).isSpikedBuf
      else if frameClkRisingEdge i.frameClk r.ball.frameClkDelayed then
        r.ball.player.frame r.ball.direction r.floor.pos
      else r.ball.player := by
  unfold GameRegs.step BallRegs.step
  dsimp only
  split_ifs <;> rfl

/-- The floors after a `Clk` edge: reset, moved by a frame, or left alone. -/
theorem GameRegs.step_floors (r : GameRegs) (i : BallIn) :
    (r.step i).floor.pos =
      if i.reset then Floors.start
      else if frameClkRisingEdge i.frameClk r.floor.frameClkDelayed then r.floor.pos.frame
      else r.floor.pos := rfl

/-- **Edge lemma.** Without reset, and with the two edge detectors in step, a `Clk` edge plays
    one frame when it is a frame edge and changes no position otherwise. -/
theorem GameRegs.step_game (r : GameRegs) (i : BallIn) (hi : i.reset = false)
    (hd : r.floor.frameClkDelayed = r.ball.frameClkDelayed) :
    (r.step i).game = (r.frameTick i).elim r.game r.game.frame := by
  have hp := r.step_player i
  have hf := r.step_floors i
  rw [hi] at hp hf
  rw [hd] at hf
  unfold GameRegs.game GameRegs.frameTick
  rw [hp, hf]
  -- both modules move, or neither
  cases frameClkRisingEdge i.frameClk r.ball.frameClkDelayed <;> rfl

/-- Whatever they hold at first, the two edge detectors agree after one `Clk` edge. -/
theorem GameRegs.detectors_agree (r : GameRegs) (ins : ℕ → BallIn) (n : ℕ) :
    (trace GameRegs.step r ins (n + 1)).floor.frameClkDelayed
      = (trace GameRegs.step r ins (n + 1)).ball.frameClkDelayed := by
  rw [trace_succ, GameRegs.step_floor_frameClkDelayed, GameRegs.step_ball_frameClkDelayed]

/-- **Refinement.** A `Clk` run without reset, from registers whose edge detectors agree, is at
    every edge the frame run over the directions latched at the frame edges so far. -/
theorem gameRun_eq_frames (r : GameRegs) (ins : ℕ → BallIn) (hins : ∀ k, (ins k).reset = false)
    (hd : r.floor.frameClkDelayed = r.ball.frameClkDelayed) (n : ℕ) :
    (trace GameRegs.step r ins n).game
      = (ticks (fun k => (trace GameRegs.step r ins k).frameTick (ins k)) n).foldl
          Game.frame r.game := by
  refine trace_abstracts (f := fun k => (trace GameRegs.step r ins k).game) ?_ n
  intro k
  rw [trace_succ]
  refine GameRegs.step_game _ _ (hins k) ?_
  -- the detectors agree at the first edge by assumption and later by themselves
  cases k with
  | zero => exact hd
  | succ k => exact r.detectors_agree ins k

/-- Every position a `Clk` run reaches from reset is one that a frame run reaches. -/
theorem gameRun_eq_gameAt (r : GameRegs) (ins : ℕ → BallIn) (hins : ∀ k, (ins k).reset = false)
    (hd : r.floor.frameClkDelayed = r.ball.frameClkDelayed) (hr : r.game = Game.start) (n : ℕ) :
    ∃ dirs m, (trace GameRegs.step r ins n).game = gameAt dirs m := by
  rw [gameRun_eq_frames r ins hins hd n, hr, foldl_eq_trace _ _ _ 0]
  exact ⟨_, _, rfl⟩

end NsShaft
