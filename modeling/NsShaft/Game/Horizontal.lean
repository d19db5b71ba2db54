import NsShaft.Game.Contact
import NsShaft.Game.Frame
import Mathlib.Tactic.SplitIfs

namespace NsShaft

open Hdl

/-!
# Horizontal containment

Which frames can take `player_x_pos` out of `player_x_min..player_x_max`.

The edge guards of `ball` hold the player at an edge unless *this* frame has only the key held that
points away from it; with both keys, or none, they hold.  The step they let through is
`player_x_motion`, registered from the keys of the frame *before*, so a reversal at an edge moves
the player outwards once more.

* `Player.outward` — the frames in which that step is longer than the room left.
* `game_xPos_contained_iff` — a run stays in the range exactly as long as no frame is one.
-/

/-! ### The range and the invariant -/

/-- `player_x_pos` lies in `player_x_min..player_x_max`. -/
def Player.InXRange (p : Player) : Prop := playerXMin ≤ p.xPos ∧ p.xPos ≤ playerXMax

instance (p : Player) : Decidable p.InXRange := inferInstanceAs (Decidable (_ ∧ _))

theorem Player.inXRange_iff {p : Player} : p.InXRange ↔ p.xPos.toNat ≤ 319 := by
  unfold Player.InXRange playerXMin playerXMax
  bv_omega

/-- `player_x_motion` is at most 5 in magnitude: a key step of 3 and a belt step of 2. -/
def Player.XMotionBounded (p : Player) : Prop := p.xMotion.toNat ≤ 5 ∨ 1019 ≤ p.xMotion.toNat

theorem keyMotion_bounded (direction onBeltFloor : BitVec 2) :
    (keyMotion direction (beltStepOf onBeltFloor)).toNat ≤ 5 ∨
      1019 ≤ (keyMotion direction (beltStepOf onBeltFloor)).toNat := by
  -- sixteen combinations of keys and belts
  revert direction onBeltFloor
  decide

/-- **Step lemma.** Whatever the keys and the floors, a frame registers a bounded motion. -/
theorem Player.frame_xMotionBounded (p : Player) (direction : BitVec 2) (f : Floors) :
    (p.frame direction f).XMotionBounded :=
  keyMotion_bounded direction _

/-! ### What a frame does to `player_x_pos` -/

/-- `player_x_motion` is negative, read as a two's complement number. -/
def Player.movesLeft (p : Player) : Prop := p.xMotion.msb = true

instance (p : Player) : Decidable p.movesLeft := inferInstanceAs (Decidable (_ = _))

/-- Only the key that points away from the near edge is held, while the registered motion still
    points at that edge and is longer than the room left there. -/
def Player.outward (p : Player) (direction : BitVec 2) : Prop :=
  (direction = dirLeft ∧ ¬ p.movesLeft ∧ playerXMax - p.xPos < p.xMotion) ∨
  (direction = dirRight ∧ p.movesLeft ∧ p.xPos - playerXMin < -p.xMotion)

instance (p : Player) (direction : BitVec 2) : Decidable (p.outward direction) :=
  inferInstanceAs (Decidable (_ ∨ _))

/-- **Exact step.** From a column in the range, the guarded step stays in the range if and only
    if it is not an outward reversal. -/
theorem xGuard_contained_iff {p : Player} (hm : p.XMotionBounded) (hx : p.xPos.toNat ≤ 319)
    (direction : BitVec 2) : (xGuard p direction).toNat ≤ 319 ↔ ¬ p.outward direction := by
  have hlr : dirLeft ≠ dirRight := by decide
  have hmsb : p.movesLeft ↔ 512 ≤ p.xMotion.toNat := by
    unfold Player.movesLeft
    rw [BitVec.msb_eq_decide, decide_eq_true_iff]
  have hright : playerXMax - p.xPos < p.xMotion ↔ 319 - p.xPos.toNat < p.xMotion.toNat := by
    unfold playerXMax
    bv_omega
  have hleft : p.xPos - playerXMin < -p.xMotion ↔
      p.xPos.toNat < (1024 - p.xMotion.toNat) % 1024 := by
    unfold playerXMin
    bv_omega
  unfold Player.outward
  rw [hmsb, hright, hleft]
  unfold Player.XMotionBounded at hm
  unfold xGuard playerXSize playerXMax playerXMin
  split_ifs with hedge hedge'
  · -- held at the right edge: the key is not left, and the left edge is far
    have hfar : 289 ≤ p.xPos.toNat := by bv_omega
    refine iff_of_true hx ?_
    rintro (⟨hd, -⟩ | ⟨-, hneg, hlt⟩)
    · exact hedge.2 hd
    · omega
  · -- held at the left edge: the key is not right, and the right edge is far
    have hnear : p.xPos.toNat ≤ 5 := by bv_omega
    refine iff_of_true hx ?_
    rintro (⟨-, hpos, hlt⟩ | ⟨hd, -⟩)
    · omega
    · exact hedge'.2 hd
  · -- let through: only a left key passes the right guard, only a right key the left one
    have hadd : (p.xPos + p.xMotion).toNat = (p.xPos.toNat + p.xMotion.toNat) % 1024 :=
      BitVec.toNat_add _ _
    rw [hadd]
    have hguardR : direction ≠ dirLeft → p.xPos.toNat < 289 := by
      intro hd
      have hlt : ¬ p.xPos + 30 ≥ 319 := fun hge => hedge ⟨hge, hd⟩
      bv_omega
    have hguardL : direction ≠ dirRight → 5 < p.xPos.toNat := by
      intro hd
      have hgt : ¬ p.xPos ≤ 0 + 5 := fun hle => hedge' ⟨hle, hd⟩
      bv_omega
    by_cases hl : direction = dirLeft
    · have hin := hguardL (by rw [hl]; exact hlr)
      simp only [hl, true_and, hlr, false_and, or_false]
      omega
    · have hin := hguardR hl
      simp only [hl, false_and, false_or]
      by_cases hr : direction = dirRight
      · simp only [hr, true_and]
        omega
      · have hin' := hguardL hr
        simp only [hr, false_and, not_false_iff, iff_true]
        omega

/-! ### Runs -/

/-- **Horizontal containment.** In every run from reset, `player_x_pos` stays in
    `player_x_min..player_x_max` up to frame `n` if and only if none of the first `n` frames is
    an outward reversal. -/
theorem game_xPos_contained_iff (dirs : ℕ → BitVec 2) (n : ℕ) :
    (∀ k ≤ n, (gameAt dirs k).player.InXRange) ↔
      ∀ k < n, ¬ (gameAt dirs k).player.outward (dirs k) :=
  trace_always_iff (I := fun g : Game => g.player.XMotionBounded) (P := fun g => g.player.InXRange)
    (B := fun g direction => g.player.outward direction) (.inl (by decide)) (by decide)
    (fun g direction _ _ _ => g.player.frame_xMotionBounded direction g.floors)
    (fun g direction hm hx =>
      Player.inXRange_iff.trans
        (xGuard_contained_iff hm (Player.inXRange_iff.mp hx) direction)) dirs n

/-- Keys that walk out at the right edge: right for 44 frames, then left and right in turn. -/
def reversalKeys (k : ℕ) : BitVec 2 :=
  if k < 44 then dirRight else if k % 2 = 0 then dirLeft else dirRight

/-- With these keys every second frame moves the player 3 further right, from column 289 in
    frame 44 to column 319 in frame 64 and past `player_x_max` in frame 65. -/
theorem game_xPos_passes : (gameAt reversalKeys 65).player.xPos = 322 ∧
    ¬ (gameAt reversalKeys 65).player.InXRange := by
  decide +kernel

end NsShaft
