import NsShaft.Game.Reachable
import Mathlib.Algebra.BigOperators.Group.Finset.Basic

namespace NsShaft

open Hdl

/-!
# Riding a belt

While the same floor keeps the player, the edge guards cannot act, so the columns are the exact
sum of the key steps and of the belt.  The step of a frame moves the player in the frame after.

* `beltSpeed`, `keySpeed` — the two parts of `player_x_motion`, as signed numbers.
* `Player.HeldAtEdge` — one of the edge guards holds the player.
* `Game.Rides` — one of floors 1, 2 and 3 is in contact in a state of the invariant.
* `belt_drift` — the column after any number of frames on one floor.
* `belt_carries_off` — without keys a belt gets rid of the player within 63 frames.
-/

/-! ### Speeds -/

/-- The step of the belt of floor `i`: only floors 2 and 3 have one. -/
def beltSpeed : Fin 5 → ℤ
  | 1 => 2
  | 2 => -2
  | _ => 0

/-- The step of the keys. -/
def keySpeed (direction : BitVec 2) : ℤ :=
  if direction = dirLeft then -3 else if direction = dirRight then 3 else 0

/-- The flag that the contact arm of floor `i` gives `on_belt_floor`. -/
def beltFlag : Fin 5 → BitVec 2
  | 1 => 0b01
  | 2 => 0b10
  | _ => 0b00

theorem contactBody_onBeltFloor (f : Floors) (y m : BitVec 10) (i : Fin 5) :
    (contactBody f y m i).onBeltFloor = beltFlag i := by
  fin_cases i <;> rfl

/-- The 10-bit sum of both steps is their signed sum. -/
theorem keyMotion_toInt : ∀ (i : Fin 5) (direction : BitVec 2),
    (keyMotion direction (beltStepOf (beltFlag i))).toInt = keySpeed direction + beltSpeed i := by
  decide

/-! ### On a floor -/

/-- The arm of floor `i`, one of the first three, fires in a state of the invariant. -/
structure Game.Rides (g : Game) (i : Fin 5) : Prop where
  inv : g.Inv
  arm : floorArm g.player g.floors = some i
  lt : i < 3

/-- The motion that a frame on the floor registers. -/
theorem Game.Rides.xMotion_frame {g : Game} {i : Fin 5} (h : g.Rides i) (direction : BitVec 2) :
    (g.frame direction).player.xMotion.toInt = keySpeed direction + beltSpeed i := by
  have hmotion : (g.frame direction).player.xMotion = keyMotion direction (beltStepOf
      (floorChain g.player g.floors (yBoundary g.player).1 (playerYStep + 0)).onBeltFloor) := rfl
  rw [hmotion, floorChain_of_arm, h.arm, Option.elim_some, contactBody_onBeltFloor]
  exact keyMotion_toInt i direction

/-- The columns from which the first three floors can be touched. -/
theorem start_columns : ∀ i : Fin 5, i < 3 →
    (Floors.start.floorX i - playerXSize).toNat + 120 = (floorXSize + Floors.start.floorX i).toNat ∧
      20 ≤ (Floors.start.floorX i - playerXSize).toNat ∧
      (floorXSize + Floors.start.floorX i).toNat ≤ 170 := by
  decide

/-- A player on a floor is in its columns. -/
theorem Game.Rides.overFloor {g : Game} {i : Fin 5} (h : g.Rides i) :
    (Floors.start.floorX i - playerXSize).toNat ≤ g.player.xPos.toNat ∧
      g.player.xPos.toNat ≤ (floorXSize + Floors.start.floorX i).toNat := by
  obtain ⟨n, hn⟩ := h.inv.floors
  have hcontact : contact g.player g.floors i = true := (h.inv.floorArm_iff i).mp h.arm
  obtain ⟨-, -, hlo, hhi⟩ := onFloor_iff.mp hcontact
  rw [hn.floorX] at hlo hhi
  exact ⟨BitVec.le_def.mp hlo, BitVec.le_def.mp hhi⟩

/-- The first three floors lie in the middle of the map. -/
theorem Game.Rides.columns {g : Game} {i : Fin 5} (h : g.Rides i) :
    20 ≤ g.player.xPos.toNat ∧ g.player.xPos.toNat ≤ 170 := by
  obtain ⟨hlo, hhi⟩ := h.overFloor
  obtain ⟨-, hleft, hright⟩ := start_columns i h.lt
  omega

/-- A bounded motion moves a column in the middle of the map by its signed value. -/
theorem Player.column_step {p : Player} (hm : p.XMotionBounded) (hlo : 20 ≤ p.xPos.toNat)
    (hhi : p.xPos.toNat ≤ 170) :
    ((p.xPos + p.xMotion).toNat : ℤ) = p.xPos.toNat + p.xMotion.toInt := by
  have hadd : (p.xPos + p.xMotion).toNat = (p.xPos.toNat + p.xMotion.toNat) % 1024 :=
    BitVec.toNat_add _ _
  have hlt := p.xMotion.isLt
  rw [hadd, BitVec.toInt_eq_toNat_cond]
  rcases hm with hm | hm
  · -- to the right the motion is small
    rw [if_pos (by omega)]
    omega
  · -- to the left it is a word near 1024, and the sum wraps once
    rw [if_neg (by omega)]
    omega

/-- The condition of one of the two edge guards. -/
def Player.HeldAtEdge (p : Player) (direction : BitVec 2) : Prop :=
  (p.xPos + playerXSize ≥ playerXMax ∧ direction ≠ dirLeft) ∨
    (p.xPos ≤ playerXMin + 5 ∧ direction ≠ dirRight)

instance (p : Player) (direction : BitVec 2) : Decidable (p.HeldAtEdge direction) :=
  inferInstanceAs (Decidable (_ ∨ _))

theorem xGuard_of_not_held {p : Player} {direction : BitVec 2} (h : ¬ p.HeldAtEdge direction) :
    xGuard p direction = p.xPos + p.xMotion := by
  obtain ⟨hright, hleft⟩ := not_or.mp h
  rw [xGuard, if_neg hright, if_neg hleft]

/-- On a floor no guard acts. -/
theorem Game.Rides.not_held {g : Game} {i : Fin 5} (h : g.Rides i) (direction : BitVec 2) :
    ¬ g.player.HeldAtEdge direction := by
  obtain ⟨hlo, hhi⟩ := h.columns
  unfold Player.HeldAtEdge playerXSize playerXMax playerXMin
  rintro (⟨hge, -⟩ | ⟨hle, -⟩)
  · bv_omega
  · bv_omega

/-- **Step lemma.** On a floor a frame moves the player by its motion, without a wrap. -/
theorem Game.Rides.xPos_frame {g : Game} {i : Fin 5} (h : g.Rides i) (direction : BitVec 2) :
    ((g.frame direction).player.xPos.toNat : ℤ) = g.player.xPos.toNat + g.player.xMotion.toInt := by
  obtain ⟨hlo, hhi⟩ := h.columns
  have hguard : (g.frame direction).player.xPos = g.player.xPos + g.player.xMotion :=
    xGuard_of_not_held (h.not_held direction)
  rw [hguard]
  exact g.player.column_step h.inv.xMotion hlo hhi

/-! ### Runs -/

variable {g : Game} {i : Fin 5} {dirs : ℕ → BitVec 2} {m : ℕ}

/-- The states of a run in which the arm of one floor fires. -/
theorem rides_of_arm (h : g.Reachable) (hi : i < 3) {j : ℕ}
    (harm : floorArm (trace Game.frame g dirs j).player (trace Game.frame g dirs j).floors = some i) :
    (trace Game.frame g dirs j).Rides i :=
  ⟨(h.trace dirs j).inv, harm, hi⟩

/-- The steps of the frames before add up. -/
theorem ride_xPos (hrides : ∀ j ≤ m, (trace Game.frame g dirs j).Rides i) :
    ((trace Game.frame g dirs (m + 1)).player.xPos.toNat : ℤ)
      = (trace Game.frame g dirs 1).player.xPos.toNat
        + ∑ j ∈ Finset.range m, (keySpeed (dirs j) + beltSpeed i) := by
  induction m with
  | zero => simp
  | succ m ih =>
    have hlast := (hrides (m + 1) (le_refl _)).xPos_frame (dirs (m + 1))
    -- the motion of this frame was registered on the same floor
    have hmotion := (hrides m (Nat.le_succ m)).xMotion_frame (dirs m)
    rw [trace_succ Game.frame g dirs (m + 1), hlast, trace_succ Game.frame g dirs m, hmotion,
      ← trace_succ Game.frame g dirs m, ih fun j hj => hrides j (Nat.le_succ_of_le hj),
      Finset.sum_range_succ, add_assoc]

/-- **Belt drift.** From every reachable state and with any keys: while the arm of floor 1, 2 or
    3 fires in the frames 0 to `m`, the player's column after each of them is the one after the
    first plus the sum of the key steps and belt steps of all frames before.  In none of these
    frames does an edge guard hold the player, and each moves it by its motion without a wrap. -/
theorem belt_drift (h : g.Reachable) (hi : i < 3)
    (harm : ∀ j ≤ m, floorArm (trace Game.frame g dirs j).player (trace Game.frame g dirs j).floors
      = some i) :
    ∀ k ≤ m, ((trace Game.frame g dirs (k + 1)).player.xPos.toNat : ℤ)
        = (trace Game.frame g dirs 1).player.xPos.toNat
          + ∑ j ∈ Finset.range k, (keySpeed (dirs j) + beltSpeed i) ∧
      ¬ (trace Game.frame g dirs k).player.HeldAtEdge (dirs k) ∧
      ((trace Game.frame g dirs (k + 1)).player.xPos.toNat : ℤ)
        = (trace Game.frame g dirs k).player.xPos.toNat
          + (trace Game.frame g dirs k).player.xMotion.toInt := by
  intro k hk
  have hrides : ∀ j ≤ m, (trace Game.frame g dirs j).Rides i :=
    fun j hj => rides_of_arm h hi (harm j hj)
  exact ⟨ride_xPos fun j hj => hrides j (le_trans hj hk), (hrides k hk).not_held (dirs k),
    (hrides k hk).xPos_frame (dirs k)⟩

/-- Without keys the player falls on floor 2, whose belt then moves it by 2. -/
theorem belt_drift_floor2 :
    ((trace Game.frame (gameAt (fun _ => 0) 19) (fun _ => 0) 2).player.xPos.toNat : ℤ)
      = (trace Game.frame (gameAt (fun _ => 0) 19) (fun _ => 0) 1).player.xPos.toNat
        + ∑ _j ∈ Finset.range 1, (keySpeed 0 + beltSpeed 1) :=
  (belt_drift (gameAt_reachable (fun _ => 0) 19) (i := 1) (by decide) (m := 1)
    (by decide +kernel) 1 (le_refl 1)).1

/-- **A belt carries the player off.** From every reachable state, if no move is asked for, the
    arm of a belt floor fails to fire within 63 frames. -/
theorem belt_carries_off (h : g.Reachable) (hi : i = 1 ∨ i = 2) (hkeys : ∀ j, keySpeed (dirs j) = 0) :
    ∃ k ≤ 62, floorArm (trace Game.frame g dirs k).player (trace Game.frame g dirs k).floors
      ≠ some i := by
  have hlt : i < 3 := by
    rcases hi with rfl | rfl <;> decide
  by_contra hcon
  have hrides : ∀ k ≤ 62, (trace Game.frame g dirs k).Rides i := by
    intro k hk
    refine rides_of_arm h hlt ?_
    by_contra hne
    exact hcon ⟨k, hk, hne⟩
  -- after 61 steps of the belt the player would be 122 columns from where it was
  have hdrift := ride_xPos (m := 61) fun j hj => hrides j (by omega)
  simp only [hkeys, zero_add, Finset.sum_const, Finset.card_range, nsmul_eq_mul] at hdrift
  obtain ⟨hlo, hhi⟩ := (hrides 1 (by omega)).overFloor
  obtain ⟨hlo', hhi'⟩ := (hrides 62 (by omega)).overFloor
  obtain ⟨hwide, -⟩ := start_columns i hlt
  have hspeed : beltSpeed i = 2 ∨ beltSpeed i = -2 := by
    rcases hi with rfl | rfl
    · exact .inl rfl
    · exact .inr rfl
  push_cast at hdrift
  rcases hspeed with hspeed | hspeed <;> rw [hspeed] at hdrift <;> omega

/-- And carries it off. -/
theorem belt_carries_off_floor2 : ∃ k ≤ 62,
    floorArm (trace Game.frame (gameAt (fun _ => 0) 19) (fun _ => 0) k).player
      (trace Game.frame (gameAt (fun _ => 0) 19) (fun _ => 0) k).floors ≠ some 1 :=
  belt_carries_off (gameAt_reachable (fun _ => 0) 19) (.inl rfl) fun _ => rfl

end NsShaft
