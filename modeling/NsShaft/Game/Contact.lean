import NsShaft.Game.Ball
import NsShaft.Hdl.Arms
import Mathlib.Data.Fintype.Basic
import Mathlib.Tactic.FinCases

namespace NsShaft

open Hdl

/-!
# The floor contact chain of `ball`

The chain of `if … else if …` over the five floors, read as a choice of one arm:

* `onFloor_iff`, `contact_iff`, `inJumpZone_iff` — the tests without their vacuous comparison,
  on the registers and in numbers.
* `floorArm` — the floor whose contact arm the chain takes.
* `floorChainIn` — the chain with its five contact arms in a given order, the two jump zone
  arms staying last; `floorChain_eq` says that the source's chain is the order 1 to 5.
* `Player.frame_cases` — what a frame does: the player is put on a floor, or moves as the y
  boundary chain says, falling or bouncing.
-/

/-! ### The contact test -/

theorem onFloor_iff {p : Player} {fx fy : BitVec 10} :
    onFloor p fx fy = true ↔ p.isSpiked = false ∧ p.yPos + playerYSize - fy ≤ floorYSize ∧
      fx - playerXSize ≤ p.xPos ∧ p.xPos ≤ floorXSize + fx := by
  have h0 : 0#10 ≤ p.yPos + playerYSize - fy := BitVec.le_def.mpr (Nat.zero_le _)
  simp [onFloor, h0, and_assoc]

/-- The contact test of floor `i` (floor 1 is index 0). -/
def contact (p : Player) (f : Floors) (i : Fin 5) : Bool := onFloor p (f.floorX i) (f.floorY i)

/-- A player in contact with a floor stands at most `floor_Y_size` below its top. -/
theorem contact_window {p : Player} {f : Floors} {i : Fin 5} (h : contact p f i = true) :
    p.yPos + playerYSize - f.floorY i ≤ floorYSize := (onFloor_iff.mp h).2.1

/-- `player_x_pos` lies in the columns of floor `i`, those from which it can be touched. -/
def Player.OverFloor (p : Player) (f : Floors) (i : Fin 5) : Prop :=
  f.floorX i - playerXSize ≤ p.xPos ∧ p.xPos ≤ floorXSize + f.floorX i

instance (p : Player) (f : Floors) (i : Fin 5) : Decidable (p.OverFloor f i) :=
  inferInstanceAs (Decidable (_ ∧ _))

/-- **Contact in numbers.** On the screen no difference wraps: the feet are at the top of the
    floor or at most `floor_Y_size` below it. -/
theorem contact_iff {p : Player} {f : Floors} {i : Fin 5} (hy : p.yPos.toNat ≤ 479)
    (hf : (f.floorY i).toNat ≤ 459) :
    contact p f i = true ↔ p.isSpiked = false ∧ (f.floorY i).toNat ≤ p.yPos.toNat + 45 ∧
      p.yPos.toNat + 45 ≤ (f.floorY i).toNat + 20 ∧ p.OverFloor f i := by
  have hwin : p.yPos + playerYSize - f.floorY i ≤ floorYSize ↔
      (f.floorY i).toNat ≤ p.yPos.toNat + 45 ∧ p.yPos.toNat + 45 ≤ (f.floorY i).toNat + 20 := by
    unfold playerYSize floorYSize
    -- a wrapped difference would be far above `floor_Y_size`, so the window bounds both sides
    constructor
    · intro h
      constructor <;> bv_omega
    · rintro ⟨h, h'⟩
      bv_omega
  unfold contact Player.OverFloor
  rw [onFloor_iff, hwin, and_assoc]

/-- **Jump zone in numbers.** On the screen the player's top is above the top of the floor, by at
    most `jump_boundary`. -/
theorem inJumpZone_iff {p : Player} {f : Floors} {i : Fin 5} (hy : p.yPos.toNat ≤ 479)
    (hf : (f.floorY i).toNat ≤ 459) :
    inJumpZone p (f.floorX i) (f.floorY i) = true ↔ p.isSpiked = false ∧
      p.yPos.toNat ≤ (f.floorY i).toNat ∧ (f.floorY i).toNat ≤ p.yPos.toNat + 75 ∧
      p.OverFloor f i := by
  have h0 : 0#10 ≤ f.floorY i - p.yPos := BitVec.le_def.mpr (Nat.zero_le _)
  have hwin : f.floorY i - p.yPos ≤ jumpBoundary ↔
      p.yPos.toNat ≤ (f.floorY i).toNat ∧ (f.floorY i).toNat ≤ p.yPos.toNat + 75 := by
    unfold jumpBoundary
    constructor
    · intro h
      constructor <;> bv_omega
    · rintro ⟨h, h'⟩
      bv_omega
  simp [inJumpZone, Player.OverFloor, h0, hwin, and_assoc]

/-! ### The chain as a choice of one arm -/

/-- The order in which the source tests the floors. -/
def floorOrder : List (Fin 5) := [0, 1, 2, 3, 4]

theorem mem_floorOrder : ∀ i : Fin 5, i ∈ floorOrder := by decide

/-- The floor whose contact arm the chain takes, if any. -/
def floorArm (p : Player) (f : Floors) : Option (Fin 5) := firstArm (contact p f) floorOrder

/-- What the contact arm of floor `i` assigns. -/
def contactBody (f : Floors) (yPosIn yMotionIn : BitVec 10) : Fin 5 → FloorChain
  | 0 => ⟨snapTo (f.floorY 0), 0, 0b00, false⟩
  | 1 => ⟨snapTo (f.floorY 1), 0, 0b01, false⟩
  | 2 => ⟨snapTo (f.floorY 2), 0, 0b10, false⟩
  | 3 => ⟨yPosIn, yMotionIn, 0b00, true⟩
  | 4 => ⟨yPosIn, yMotionIn, 0b00, true⟩

/-- The jump zone arms, behind all contact arms. -/
def zoneChain (p : Player) (f : Floors) (yPosIn yMotionIn : BitVec 10) : FloorChain :=
  if inJumpZone p (f.floorX 3) (f.floorY 3) then ⟨yPosIn, yMotionIn, 0b00, p.jumpState⟩
  else if inJumpZone p (f.floorX 4) (f.floorY 4) then ⟨yPosIn, yMotionIn, 0b00, p.jumpState⟩
  else ⟨yPosIn, yMotionIn, 0b00, false⟩

/-- The floor contact chain with its five contact arms in the order `order`. -/
def floorChainIn (order : List (Fin 5)) (p : Player) (f : Floors) (yPosIn yMotionIn : BitVec 10) :
    FloorChain :=
  chain (contact p f) (contactBody f yPosIn yMotionIn) (zoneChain p f yPosIn yMotionIn) order

/-- The source's chain tests the floors in the order 1 to 5. -/
theorem floorChain_eq (p : Player) (f : Floors) (y m : BitVec 10) :
    floorChain p f y m = floorChainIn floorOrder p f y m := by
  simp only [floorChainIn, floorOrder, chain_cons, chain_nil]
  rfl

/-- Floors 1 to 3 place the player and stop it. -/
theorem contactBody_of_lt (f : Floors) (y m : BitVec 10) {i : Fin 5} (hi : i < 3) :
    (contactBody f y m i).playerYPosIn = snapTo (f.floorY i) ∧
      (contactBody f y m i).playerYMotionIn = 0 ∧ (contactBody f y m i).onJumpFloor = false := by
  fin_cases i
  · exact ⟨rfl, rfl, rfl⟩
  · exact ⟨rfl, rfl, rfl⟩
  · exact ⟨rfl, rfl, rfl⟩
  all_goals exact absurd hi (by decide)

/-- Floors 4 and 5 start a bounce and do nothing else. -/
theorem contactBody_of_le (f : Floors) (y m : BitVec 10) {i : Fin 5} (hi : 3 ≤ i) :
    contactBody f y m i = ⟨y, m, 0b00, true⟩ := by
  fin_cases i
  · exact absurd hi (by decide)
  · exact absurd hi (by decide)
  · exact absurd hi (by decide)
  all_goals rfl

/-- The jump zone arms leave position, motion and belt alone. -/
theorem zoneChain_eq (p : Player) (f : Floors) (y m : BitVec 10) :
    zoneChain p f y m = ⟨y, m, 0b00, (zoneChain p f y m).onJumpFloor⟩ := by
  unfold zoneChain
  repeat' split
  all_goals rfl

/-- The chain after its arm is known. -/
theorem floorChain_of_arm (p : Player) (f : Floors) (y m : BitVec 10) :
    floorChain p f y m = (floorArm p f).elim (zoneChain p f y m) (contactBody f y m) :=
  floorChain_eq p f y m

/-! ### What a frame does to the player -/

/-- Floor `i` starts or keeps up a bounce: its contact test holds, or a bounce is under way and
    its jump zone test holds. -/
def Player.Lifts (p : Player) (f : Floors) (i : Fin 5) : Prop :=
  contact p f i = true ∨
    (p.jumpState = true ∧ inJumpZone p (f.floorX i) (f.floorY i) = true)

/-- Behind the contact arms a bounce goes on only in the zone of floor 4 or 5. -/
theorem zoneChain_lifts {p : Player} {f : Floors} {y m : BitVec 10}
    (h : (zoneChain p f y m).onJumpFloor = true) : ∃ i, 3 ≤ i ∧ p.Lifts f i := by
  unfold zoneChain at h
  split at h
  · -- the zone arms hand on `jump_state` itself, so it was set
    rename_i hzone
    exact ⟨3, by decide, .inr ⟨h, hzone⟩⟩
  · split at h
    · rename_i hzone
      exact ⟨4, by decide, .inr ⟨h, hzone⟩⟩
    · exact absurd h Bool.false_ne_true

/-- **Frame.** Either floor 1, 2 or 3 is touched and the player is put on it, at rest; or none
    of the three arms is taken, the y boundary chain decides and the motion is that of a fall or
    of a bounce, which only floors 4 and 5 start or keep up. -/
theorem Player.frame_cases (p : Player) (direction : BitVec 2) (f : Floors) :
    (∃ i, floorArm p f = some i ∧ i < 3 ∧ (p.frame direction f).yPos = snapTo (f.floorY i) ∧
      (p.frame direction f).yMotion = 0 ∧ (p.frame direction f).jumpState = false) ∨
    ((∀ i, floorArm p f = some i → 3 ≤ i) ∧ (p.frame direction f).yPos = (yBoundary p).1 ∧
      (p.frame direction f).yMotion = playerYStep + jumpStepOf p.jumpState ∧
      ((p.frame direction f).jumpState = true → ∃ i, 3 ≤ i ∧ p.Lifts f i)) := by
  have hchain := floorChain_of_arm p f (yBoundary p).1 (playerYStep + jumpStepOf p.jumpState)
  have hy : (p.frame direction f).yPos = (floorChain p f (yBoundary p).1
      (playerYStep + jumpStepOf p.jumpState)).playerYPosIn := rfl
  have hm : (p.frame direction f).yMotion = (floorChain p f (yBoundary p).1
      (playerYStep + jumpStepOf p.jumpState)).playerYMotionIn := rfl
  have hj : (p.frame direction f).jumpState = (floorChain p f (yBoundary p).1
      (playerYStep + jumpStepOf p.jumpState)).onJumpFloor := rfl
  rw [hy, hm, hj, hchain]
  rcases harm : floorArm p f with _ | i
  · -- only the jump zones are left, and they keep position and motion
    right
    rw [Option.elim_none]
    refine ⟨fun i hi => (nomatch hi), ?_, ?_, zoneChain_lifts⟩
    · rw [zoneChain_eq]
    · rw [zoneChain_eq]
  · rw [Option.elim_some]
    by_cases hi : i < 3
    · -- floors 1 to 3 overwrite what the boundary chain has said
      obtain ⟨hpos, hmotion, hjump⟩ := contactBody_of_lt f (yBoundary p).1
        (playerYStep + jumpStepOf p.jumpState) hi
      exact .inl ⟨i, rfl, hi, hpos, hmotion, hjump⟩
    · -- floors 4 and 5 let it pass and only set `jump_state`
      have hge : 3 ≤ i := not_lt.mp hi
      rw [contactBody_of_le f _ _ hge]
      refine .inr ⟨fun j hj => Option.some.inj hj ▸ hge, rfl, rfl, fun _ => ?_⟩
      exact ⟨i, hge, .inl (test_of_firstArm harm)⟩

/-- The contact arm of floor 4 or 5 starts a bounce. -/
theorem Player.frame_jumpState_of_arm {p : Player} {f : Floors} {i : Fin 5}
    (harm : floorArm p f = some i) (hi : 3 ≤ i) (direction : BitVec 2) :
    (p.frame direction f).jumpState = true := by
  show (floorChain p f (yBoundary p).1 (playerYStep + jumpStepOf p.jumpState)).onJumpFloor = true
  rw [floorChain_of_arm, harm, Option.elim_some, contactBody_of_le f _ _ hi]

/-- **Vertical step.** Either floor 1, 2 or 3 is touched and the player is put on it, or none
    of the three arms is taken and the y boundary chain decides. -/
theorem Player.frame_yPos_cases (p : Player) (direction : BitVec 2) (f : Floors) :
    (∃ i, floorArm p f = some i ∧ i < 3 ∧ (p.frame direction f).yPos = snapTo (f.floorY i)) ∨
    ((∀ i, floorArm p f = some i → 3 ≤ i) ∧ (p.frame direction f).yPos = (yBoundary p).1) := by
  rcases p.frame_cases direction f with ⟨i, harm, hi, hpos, -⟩ | ⟨hother, hpos, -⟩
  · exact .inl ⟨i, harm, hi, hpos⟩
  · exact .inr ⟨hother, hpos⟩

end NsShaft
