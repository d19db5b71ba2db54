import NsShaft.Game.Horizontal
import NsShaft.Game.Spacing
import NsShaft.Game.Vertical

namespace NsShaft

open Hdl

/-!
# Reachable states of the game

`gameAt` follows the frames from the usual reset.  On the board `KEY[1]` may be pressed at any
`Clk` edge, and then `jump_state` keeps what it held and `is_spiked` samples the boundary chain.

* `Game.Reachable` — the states reached by frames from any such reset.
* `gameRun_reachable` — a `Clk` run that has seen a reset edge is in one of them, whatever the
  registers held at power-up and whenever the key is pressed again.
* `Game.Reachable.inv` — the invariant of the reachable states that the results about whole
  runs rest on.
-/

/-! ### Reachability -/

/-- The game after a reset edge that left `jump_state` and `is_spiked` at the given values. -/
def Game.afterReset (jumpState isSpiked : Bool) : Game where
  player := ⟨playerXCenter, playerYCenter, 0, 0, jumpState, isSpiked⟩
  floors := Floors.start

/-- The states that frames reach from a reset edge. -/
inductive Game.Reachable : Game → Prop where
  -- the reset branch assigns neither `jump_state` nor `is_spiked`
  | afterReset (jumpState isSpiked : Bool) : Reachable (Game.afterReset jumpState isSpiked)
  | frame {g : Game} (direction : BitVec 2) (h : Reachable g) : Reachable (g.frame direction)

/-- Frames lead from reachable states to reachable states. -/
theorem Game.Reachable.trace {g : Game} (h : g.Reachable) (dirs : ℕ → BitVec 2) (n : ℕ) :
    (trace Game.frame g dirs n).Reachable :=
  trace_invariant h (fun _ direction ht => .frame direction ht) dirs n

theorem gameAt_reachable (dirs : ℕ → BitVec 2) (n : ℕ) : (gameAt dirs n).Reachable :=
  (Game.Reachable.afterReset false false).trace dirs n

/-! ### `Clk` runs -/

/-- A reset edge leaves a reachable state, whatever the registers held. -/
theorem GameRegs.step_reset_reachable (r : GameRegs) {i : BallIn} (hi : i.reset = true) :
    (r.step i).game.Reachable := by
  have hp := r.step_player i
  have hf := r.step_floors i
  rw [if_pos hi] at hp hf
  unfold GameRegs.game
  rw [hp, hf]
  exact .afterReset _ _

/-- Any other edge keeps a reachable state, once the edge detectors agree. -/
theorem GameRegs.step_reachable {r : GameRegs} (h : r.game.Reachable)
    (hd : r.floor.frameClkDelayed = r.ball.frameClkDelayed) (i : BallIn) :
    (r.step i).game.Reachable := by
  by_cases hi : i.reset = true
  · exact r.step_reset_reachable hi
  · rw [r.step_game i (Bool.not_eq_true _ ▸ hi) hd]
    -- between two frames no register of the game moves
    rcases r.frameTick i with _ | direction
    · exact h
    · exact .frame direction h

/-- **Clk runs.** After a first edge in reset the positions are reachable at every edge, with
    the reset pressed again at any later one. -/
theorem gameRun_reachable (r : GameRegs) (ins : ℕ → BallIn) (h0 : (ins 0).reset = true) (n : ℕ) :
    (trace GameRegs.step r ins (n + 1)).game.Reachable := by
  induction n with
  | zero => exact r.step_reset_reachable h0
  | succ n ih => exact GameRegs.step_reachable ih (r.detectors_agree ins n) (ins (n + 1))

/-! ### The invariant -/

/-- What holds in every reachable state: both motions are among the values the block registers
    and the floors are on their cycle. -/
structure Game.Inv (g : Game) : Prop where
  yMotion : g.player.YMotionBounded
  xMotion : g.player.XMotionBounded
  floors : ∃ n, g.floors.OnCycle n

theorem Game.inv_afterReset (jumpState isSpiked : Bool) : (Game.afterReset jumpState isSpiked).Inv where
  yMotion := .inl rfl
  xMotion := .inl (Nat.zero_le 5)
  floors := ⟨0, Floors.onCycle_start⟩

/-- **Step lemma.** Every frame keeps the invariant. -/
theorem Game.inv_frame {g : Game} (h : g.Inv) (direction : BitVec 2) : (g.frame direction).Inv where
  yMotion := g.player.frame_yMotionBounded direction g.floors
  xMotion := g.player.frame_xMotionBounded direction g.floors
  floors := by
    obtain ⟨n, hn⟩ := h.floors
    exact ⟨n + 1, hn.frame⟩

/-- **Invariant.** It holds in every reachable state. -/
theorem Game.Reachable.inv {g : Game} (h : g.Reachable) : g.Inv := by
  induction h with
  | afterReset jumpState isSpiked => exact Game.inv_afterReset jumpState isSpiked
  | frame direction _ ih => exact Game.inv_frame ih direction

theorem Game.Inv.floors_le {g : Game} (h : g.Inv) (i : Fin 5) : (g.floors.floorY i).toNat ≤ 459 := by
  obtain ⟨n, hn⟩ := h.floors
  exact hn.le i

theorem Game.Inv.spaced {g : Game} (h : g.Inv) : g.floors.Spaced := by
  obtain ⟨n, hn⟩ := h.floors
  exact hn.spaced

/-- Where the next frame finds a floor that is not at the top. -/
theorem Game.frame_floorY_of_pos {g : Game} {i : Fin 5} (h : 0 < (g.floors.floorY i).toNat)
    (direction : BitVec 2) :
    ((g.frame direction).floors.floorY i).toNat = (g.floors.floorY i).toNat - 1 := by
  show (g.floors.frame.floorY i).toNat = _
  rw [Floors.frame_floorY, floorYPosIn_toNat, if_neg (by omega)]

/-- In a reachable state the floor in contact with the player is the one whose arm fires. -/
theorem Game.Inv.floorArm_iff {g : Game} (h : g.Inv) (i : Fin 5) :
    floorArm g.player g.floors = some i ↔ contact g.player g.floors i = true :=
  ⟨test_of_firstArm, firstArm_eq_some (contact_unique h.spaced g.player) (mem_floorOrder i)⟩

end NsShaft
