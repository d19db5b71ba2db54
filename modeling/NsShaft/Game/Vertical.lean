import NsShaft.Game.Contact
import NsShaft.Game.Frame
import Mathlib.Tactic.SplitIfs

namespace NsShaft

open Hdl

/-!
# Vertical containment

Which frames can take `player_y_pos` out of `player_y_min..player_y_max`.

* `yBoundary_contained` — the y boundary chain never leaves the range: the bottom edge is
  caught 45 pixels early and a rise of 4 happens only below the spikes.
* `snapTo_contained_iff` — putting the player on a floor stays in the range exactly when the
  floor leaves room for the player above it.
* `Game.snapsAboveTop` — the frames that do leave: floor 1, 2 or 3 is touched while it stands
  less than `player_y_size + floor_step` below the top.  A respawned player (at `y = 0`, not
  spiked) under which such a floor passes is snapped to a wrapped, huge height.
* `game_yPos_contained_iff` — a run stays in the range exactly as long as no frame does that.
-/

/-! ### The range and the invariant -/

/-- `player_y_pos` lies in `player_y_min..player_y_max`. -/
def Player.InYRange (p : Player) : Prop := playerYMin ≤ p.yPos ∧ p.yPos ≤ playerYMax

instance (p : Player) : Decidable p.InYRange := inferInstanceAs (Decidable (_ ∧ _))

theorem Player.inYRange_iff {p : Player} : p.InYRange ↔ p.yPos.toNat ≤ 479 := by
  unfold Player.InYRange playerYMin playerYMax
  bv_omega

/-- The values `player_y_motion` takes: at rest on a floor, falling, bouncing. -/
def Player.YMotionBounded (p : Player) : Prop :=
  p.yMotion = 0 ∨ p.yMotion = 2 ∨ p.yMotion = -4

/-- The invariant behind vertical containment: the motion is one of its three values and no
    floor is below its re-entry height. -/
structure Game.VerticalInv (g : Game) : Prop where
  motion : g.player.YMotionBounded
  floors : ∀ i : Fin 5, (g.floors.floorY i).toNat ≤ 459

theorem Game.verticalInv_start : Game.start.VerticalInv where
  motion := .inl rfl
  floors := by decide

/-- Every contact arm sets the motion to 0 or keeps it, and what it keeps is 2 or -4. -/
theorem Player.frame_yMotionBounded (p : Player) (direction : BitVec 2) (f : Floors) :
    (p.frame direction f).YMotionBounded := by
  have hm : ∀ b : Bool, playerYStep + jumpStepOf b = 2 ∨ playerYStep + jumpStepOf b = -4 := by
    decide
  unfold Player.YMotionBounded
  rcases p.frame_cases direction f with ⟨-, -, -, -, hmotion, -⟩ | ⟨-, -, hmotion, -⟩ <;> rw [hmotion]
  · exact .inl rfl
  · exact .inr (hm p.jumpState)

theorem floorYPosIn_le {y : BitVec 10} (h : y.toNat ≤ 459) : (floorYPosIn y).toNat ≤ 459 := by
  rw [floorYPosIn_toNat]
  split <;> omega

/-- **Step lemma.** Every frame keeps the invariant. -/
theorem Game.verticalInv_frame {g : Game} (h : g.VerticalInv) (direction : BitVec 2) :
    (g.frame direction).VerticalInv where
  motion := g.player.frame_yMotionBounded direction g.floors
  floors := by
    intro i
    show (g.floors.frame.floorY i).toNat ≤ 459
    rw [Floors.frame_floorY]
    exact floorYPosIn_le (h.floors i)

/-! ### What a frame does to `player_y_pos` -/

/-- **Boundary chain.** From a height in the range the chain respawns a player at the bottom
    edge, pushes a spiked one down by `player_y_step`, or moves it by its motion. -/
theorem yBoundary_cases {p : Player} (hy : p.yPos.toNat ≤ 479) :
    (434 ≤ p.yPos.toNat ∧ yBoundary p = (0, false)) ∨
    (p.yPos.toNat ≤ 95 ∧ (35 < p.yPos.toNat → p.isSpiked = true) ∧
      yBoundary p = (p.yPos + 2, true)) ∨
    (35 < p.yPos.toNat ∧ p.yPos.toNat < 434 ∧ (p.isSpiked = true → 95 < p.yPos.toNat) ∧
      yBoundary p = (p.yPos + p.yMotion, false)) := by
  unfold yBoundary playerYSize playerYMax playerYMin spikeHeight dropHeight playerYStep
  split_ifs with hbottom hspikes hdrop hleave
  · exact .inl ⟨by bv_omega, rfl⟩
  · exact .inr (.inl ⟨by bv_omega, fun h => by bv_omega, rfl⟩)
  · exact .inr (.inl ⟨by bv_omega, fun _ => hdrop.2.2, rfl⟩)
  -- past `drop_height`, marked or not, the player moves by its motion
  all_goals
    refine .inr (.inr ⟨by bv_omega, by bv_omega, fun hs => ?_, rfl⟩)
    by_contra hle
    exact hdrop ⟨by bv_omega, by bv_omega, hs⟩

/-- `player_y_motion` as a number: at rest, falling by 2, or rising by 4 (mod 1024). -/
theorem Player.YMotionBounded.toNat {p : Player} (h : p.YMotionBounded) :
    p.yMotion.toNat = 0 ∨ p.yMotion.toNat = 2 ∨ p.yMotion.toNat = 1020 := by
  rcases h with h | h | h <;> rw [h] <;> decide

/-- The y boundary chain stays in the range. -/
theorem yBoundary_contained {p : Player} (hy : p.yPos.toNat ≤ 479) (hm : p.YMotionBounded) :
    (yBoundary p).1.toNat ≤ 479 := by
  have hmotion := hm.toNat
  rcases yBoundary_cases hy with ⟨-, h⟩ | ⟨hlow, -, h⟩ | ⟨hin, hout, -, h⟩ <;> rw [h]
  · decide
  · bv_omega
  -- at least 36 deep, a rise of 4 does not wrap
  · bv_omega

/-- A floor no lower than 459 can hold the player in the range exactly when it is at least
    `player_y_size + floor_step` below the top. -/
theorem snapTo_contained_iff {y : BitVec 10} (hy : y.toNat ≤ 459) :
    (snapTo y).toNat ≤ 479 ↔ ¬ y < playerYSize + floorStep := by
  unfold snapTo playerYSize floorStep
  bv_omega

/-- The frame snaps the player to a place above the top of the screen: the arm that fires is
    that of floor 1, 2 or 3, and that floor is less than `player_y_size + floor_step` deep. -/
def Game.snapsAboveTop (g : Game) : Prop :=
  ∃ i, floorArm g.player g.floors = some i ∧ i < 3 ∧ g.floors.floorY i < playerYSize + floorStep

/-- **Exact step.** From a height in the range, a frame stays in the range if and only if it
    does not snap the player above the top. -/
theorem Game.frame_inYRange_iff {g : Game} (h : g.VerticalInv) (hy : g.player.InYRange)
    (direction : BitVec 2) :
    (g.frame direction).player.InYRange ↔ ¬ g.snapsAboveTop := by
  rw [Player.inYRange_iff] at hy ⊢
  rcases g.player.frame_yPos_cases direction g.floors with ⟨i, harm, hi, hpos⟩ | ⟨hother, hpos⟩
  · have hframe : (g.frame direction).player.yPos = snapTo (g.floors.floorY i) := hpos
    rw [hframe, snapTo_contained_iff (h.floors i)]
    constructor
    · -- only one arm fires, so the floor without room would be this one
      rintro hroom ⟨j, hj, _, hlow⟩
      rw [harm] at hj
      cases hj
      exact hroom hlow
    · intro hsafe hlow
      exact hsafe ⟨i, harm, hi, hlow⟩
  · have hframe : (g.frame direction).player.yPos = (yBoundary g.player).1 := hpos
    rw [hframe]
    refine ⟨fun _ => ?_, fun _ => yBoundary_contained hy h.motion⟩
    rintro ⟨j, hj, hlt, _⟩
    have hge := hother j hj
    omega

/-! ### Runs -/

/-- **Vertical containment.** In every run from reset, `player_y_pos` stays in
    `player_y_min..player_y_max` up to frame `n` if and only if none of the first `n` frames
    snaps the player to a floor that leaves no room above it. -/
theorem game_yPos_contained_iff (dirs : ℕ → BitVec 2) (n : ℕ) :
    (∀ k ≤ n, (gameAt dirs k).player.InYRange) ↔ ∀ k < n, ¬ (gameAt dirs k).snapsAboveTop :=
  trace_always_iff (I := Game.VerticalInv) (P := fun g => g.player.InYRange)
    (B := fun g _ => g.snapsAboveTop) Game.verticalInv_start (by decide)
    (fun _ direction h _ _ => Game.verticalInv_frame h direction)
    (fun _ direction h hy => Game.frame_inYRange_iff h hy direction) dirs n

/-- Keys that lead a respawned player under floor 2: right for 41 frames, past the floors and
    down to the bottom, then left from frame 107 on. -/
def respawnKeys (k : ℕ) : BitVec 2 :=
  if k < 41 then dirRight else if k < 107 then 0 else dirLeft

/-- With these keys the player respawns at the top in frame 169 with floor 2 at height 31
    around it, and frame 170 puts it at `31 - 46`, which wraps to 1009. -/
theorem game_yPos_wraps : (gameAt respawnKeys 170).player.yPos = 1009 ∧
    ¬ (gameAt respawnKeys 170).player.InYRange := by
  decide +kernel

end NsShaft
