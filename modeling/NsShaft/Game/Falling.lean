import NsShaft.Game.Reachable

namespace NsShaft

open Hdl

/-!
# Nobody hovers

Between two floors the player only falls, finishes a bounce, or is pushed down by the spikes, and
none of this goes on for ever.

* `Player.framesLeft` — a bound on the frames up to the next contact or the bottom edge.
* `Game.framesLeft_frame` — every frame without either lowers it.
* `touches_within` — so every run has one of the two at least every 500 frames.
-/

/-! ### Contact or the bottom edge -/

/-- The test for the bottom edge holds. -/
def Player.AtBottom (p : Player) : Prop := p.yPos + playerYSize ≥ playerYMax

/-- The contact arm of some floor fires, or the player is at the bottom edge. -/
def Game.Touches (g : Game) : Prop := floorArm g.player g.floors ≠ none ∨ g.player.AtBottom

/-- In numbers, also where the height of the player has wrapped. -/
theorem Player.atBottom_iff {p : Player} :
    p.AtBottom ↔ 434 ≤ p.yPos.toNat ∧ p.yPos.toNat ≤ 978 := by
  unfold Player.AtBottom playerYSize playerYMax
  bv_omega

/-- Above the bottom edge the spikes push the player down, or it moves by its motion. -/
theorem yBoundary_above {p : Player} (h : ¬ p.AtBottom) :
    (p.yPos.toNat ≤ 95 ∧ yBoundary p = (p.yPos + 2, true)) ∨
      (36 ≤ p.yPos.toNat ∧ yBoundary p = (p.yPos + p.yMotion, false)) := by
  have hbottom : ¬ p.yPos + playerYSize ≥ playerYMax := h
  unfold yBoundary
  rw [if_neg hbottom]
  unfold playerYStep spikeHeight dropHeight
  split_ifs with hspikes hdrop
  · exact .inl ⟨by bv_omega, rfl⟩
  · exact .inl ⟨by bv_omega, rfl⟩
  · exact .inr ⟨by bv_omega, rfl⟩
  · exact .inr ⟨by bv_omega, rfl⟩

/-- A frame without contact: the y boundary chain decides, the motion is that of a fall or of a
    bounce, and a bounce goes on only if it has begun and the spikes have not been met. -/
theorem Game.frame_untouched {g : Game} (h : floorArm g.player g.floors = none)
    (direction : BitVec 2) :
    (g.frame direction).player.yPos = (yBoundary g.player).1 ∧
      (g.frame direction).player.isSpiked = (yBoundary g.player).2 ∧
      (g.frame direction).player.yMotion = (if g.player.jumpState then -4 else 2) ∧
      ((g.frame direction).player.jumpState = true →
        g.player.jumpState = true ∧ g.player.isSpiked = false) := by
  rcases g.player.frame_cases direction g.floors with ⟨i, harm, -⟩ | ⟨-, hpos, hmotion, hjump⟩
  · rw [h] at harm
    cases harm
  · refine ⟨hpos, rfl, ?_, fun hj => ?_⟩
    · show (g.player.frame direction g.floors).yMotion = _
      rw [hmotion]
      cases g.player.jumpState <;> rfl
    · obtain ⟨i, -, hcontact | ⟨hstate, hzone⟩⟩ := hjump hj
      · -- no contact arm fires, so only a zone arm can have kept the bounce up
        exact absurd hcontact (List.find?_eq_none.mp h i (mem_floorOrder i))
      · refine ⟨hstate, ?_⟩
        simp only [inJumpZone, Bool.and_eq_true, beq_iff_eq] at hzone
        exact hzone.1.1.1.1

/-! ### The measure -/

/-- The frames of a fall from a height, which may have wrapped past the top. -/
def fallFrames (y : ℕ) : ℕ :=
  if y < 434 then (435 - y) / 2 else if y ≤ 978 then 0 else (1459 - y) / 2

/-- A bound on the frames up to the next contact or the bottom edge: what is left of a bounce that
    rises by 4 a frame, then one frame each for the registers that follow it, then a fall by 2. -/
def Player.framesLeft (p : Player) : ℕ :=
  if p.jumpState then
    if p.yMotion = -4 then if p.isSpiked then 243 else 244 + p.yPos.toNat / 4 else 500
  else if p.yMotion = 2 then fallFrames p.yPos.toNat
  else if p.yMotion = -4 then 242
  else 241

theorem fallFrames_le (y : ℕ) : fallFrames y ≤ 240 := by
  unfold fallFrames
  split_ifs <;> omega

theorem Player.framesLeft_le (p : Player) : p.framesLeft ≤ 500 := by
  have hy := p.yPos.isLt
  have hfall := fallFrames_le p.yPos.toNat
  unfold Player.framesLeft
  split_ifs <;> omega

/-- **Step lemma.** A frame without contact and above the bottom edge lowers the bound. -/
theorem Game.framesLeft_frame {g : Game} (hm : g.player.YMotionBounded) (h : ¬ g.Touches)
    (direction : BitVec 2) : (g.frame direction).player.framesLeft < g.player.framesLeft := by
  obtain ⟨harm, hbottom⟩ := not_or.mp h
  have hbottom' := mt Player.atBottom_iff.mpr hbottom
  obtain ⟨hpos, hspiked, hmotion, hjump⟩ := g.frame_untouched (not_not.mp harm) direction
  have hy := g.player.yPos.isLt
  have hy' := (g.frame direction).player.yPos.isLt
  have hne : (2 : BitVec 10) ≠ -4 := by decide
  cases hj : g.player.jumpState with
  | false =>
    -- a fall, from the next frame on at the latest
    rw [hj] at hmotion hjump
    have hj' : (g.frame direction).player.jumpState = false := by
      rw [← Bool.not_eq_true]
      exact fun h => absurd (hjump h).1 Bool.false_ne_true
    have hleft : (g.frame direction).player.framesLeft
        = fallFrames (g.frame direction).player.yPos.toNat := by
      simp [Player.framesLeft, hj', hmotion]
    rw [hleft]
    have hfall := fallFrames_le (g.frame direction).player.yPos.toNat
    rcases hm with hm | hm | hm
    · -- at rest: the fall is registered in this frame
      simp [Player.framesLeft, hj, hm]
      omega
    · -- spikes or motion, a falling player moves down by 2, from a wrapped height through 0
      have hstep : (g.frame direction).player.yPos = g.player.yPos + 2 := by
        rw [hpos]
        rcases yBoundary_above hbottom with ⟨-, hb⟩ | ⟨-, hb⟩ <;> rw [hb]
        rw [hm]
      have hnum : (g.frame direction).player.yPos.toNat = (g.player.yPos.toNat + 2) % 1024 := by
        rw [hstep]
        exact BitVec.toNat_add _ _
      simp only [Player.framesLeft, hj, hm, hnum, fallFrames, Bool.false_eq_true, if_false, if_true]
      split_ifs <;> omega
    · simp [Player.framesLeft, hj, hm]
      omega
  | true =>
    rw [hj] at hmotion
    have hmotion' : (g.frame direction).player.yMotion = -4 := hmotion
    by_cases hrise : g.player.yMotion = -4
    · have hleft : g.player.framesLeft
          = if g.player.isSpiked then 243 else 244 + g.player.yPos.toNat / 4 := by
        simp [Player.framesLeft, hj, hrise]
      rw [hleft]
      cases hj' : (g.frame direction).player.jumpState with
      | false =>
        -- the bounce ends here: at most 242 frames of fall are left
        simp only [Player.framesLeft, hj', hmotion', hne.symm]
        split_ifs <;> simp_all
        omega
      | true =>
        -- it goes on: pushed down it is spiked now, else it has risen by 4
        obtain ⟨-, hclear⟩ := hjump hj'
        simp only [Player.framesLeft, hj', hmotion', if_true, hclear, Bool.false_eq_true, if_false]
        rw [hspiked, hpos]
        rcases yBoundary_above hbottom with ⟨-, hb⟩ | ⟨hhigh, hb⟩ <;> rw [hb]
        · simp only [if_true]
          omega
        · have hnum : (g.player.yPos + g.player.yMotion).toNat + 4 = g.player.yPos.toNat := by
            rw [hrise]
            bv_omega
          simp only [Bool.false_eq_true, if_false]
          omega
    · -- the first frame of a bounce registers the rise
      have hleft : g.player.framesLeft = 500 := by
        rw [Player.framesLeft, if_pos hj, if_neg hrise]
      have hfall := fallFrames_le (g.frame direction).player.yPos.toNat
      rw [hleft, Player.framesLeft, hmotion', if_pos rfl]
      split_ifs <;> omega

/-! ### Runs -/

/-- **Nobody hovers.** From every reachable state, with any keys, the player touches a floor or
    reaches the bottom edge within 500 frames. -/
theorem touches_within {g : Game} (h : g.Reachable) (dirs : ℕ → BitVec 2) :
    ∃ k ≤ 500, (trace Game.frame g dirs k).Touches := by
  obtain ⟨k, hk, htouch⟩ := trace_reaches (I := fun g : Game => g.player.YMotionBounded)
    (fun g => g.player.framesLeft) h.inv.yMotion
    (fun g direction _ => g.player.frame_yMotionBounded direction g.floors)
    (fun g direction hm hnot => g.framesLeft_frame hm hnot direction) dirs
  exact ⟨k, hk.trans g.player.framesLeft_le, htouch⟩

/-- Without keys, from the start. -/
theorem touches_within_start : ∃ k ≤ 500, (trace Game.frame Game.start (fun _ => 0) k).Touches :=
  touches_within (Game.Reachable.afterReset false false) fun _ => 0

end NsShaft
