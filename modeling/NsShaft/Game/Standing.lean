import NsShaft.Game.Reachable

namespace NsShaft

open Hdl

/-!
# Standing on a floor

A player on floor 1, 2 or 3 is put back on it in every frame: at the place the floor will have
*after* the frame, one `floor_step` above its present one.

* `Game.Rests` — a contact arm fires for a floor that leaves room above it.
* `Game.Rests.standsOn` — the next frame finds the feet exactly at the top of the floor.
* `Game.Rests.frame` — if the player is then still over the floor and not spiked, the same arm
  fires again.
* `standing_stable` — both along a whole run.
-/

/-! ### Standing and resting -/

/-- `player_y_pos + player_y_size = floor_i_Y`. -/
def Game.StandsOn (g : Game) (i : Fin 5) : Prop :=
  g.player.yPos.toNat + playerYSize.toNat = (g.floors.floorY i).toNat

/-- The arm of floor `i` fires in a state of the invariant, on the screen, and the floor is at
    least `player_y_size + floor_step` deep. -/
structure Game.Rests (g : Game) (i : Fin 5) : Prop where
  inv : g.Inv
  inRange : g.player.yPos.toNat ≤ 479
  arm : floorArm g.player g.floors = some i
  room : 46 ≤ (g.floors.floorY i).toNat

/-- **Landing.** The frame in which the arm of floor 1, 2 or 3 fires leaves the feet exactly at
    the top of the risen floor. -/
theorem Game.Rests.standsOn {g : Game} {i : Fin 5} (h : g.Rests i) (hi : i < 3)
    (direction : BitVec 2) : (g.frame direction).StandsOn i := by
  have hroom := h.room
  have hfloor := Game.frame_floorY_of_pos (g := g) (i := i) (by omega) direction
  rcases g.player.frame_cases direction g.floors with ⟨j, harm, -, hpos, -⟩ | ⟨hother, -⟩
  · have hij : i = j := by
      rw [h.arm] at harm
      exact Option.some.inj harm
    rw [← hij] at hpos
    have hy : (g.frame direction).player.yPos = snapTo (g.floors.floorY i) := hpos
    unfold Game.StandsOn
    rw [hy, hfloor]
    unfold snapTo playerYSize floorStep
    bv_omega
  · have hge := hother i h.arm
    omega

/-- A player that no frame has spiked stands clear of the spikes, so a floor it rests on is far
    from the top. -/
theorem Game.Rests.deep {g : Game} {i : Fin 5} (h : g.Rests i) {direction : BitVec 2}
    (hs : (g.frame direction).player.isSpiked = false) : 61 ≤ (g.floors.floorY i).toNat := by
  have hcontact := (h.inv.floorArm_iff i).mp h.arm
  obtain ⟨-, -, hfeet, -⟩ := (contact_iff h.inRange (h.inv.floors_le i)).mp hcontact
  have hbuf : (yBoundary g.player).2 = false := hs
  rcases yBoundary_cases h.inRange with ⟨hlow, -⟩ | ⟨-, -, hspiked⟩ | ⟨hin, -⟩
  · -- at the bottom edge the feet are at 479, so the floor is far down
    omega
  · rw [hspiked] at hbuf
    exact absurd hbuf.symm Bool.false_ne_true
  · omega

/-- **Step lemma.** As long as the player is over the floor and not spiked, it keeps resting. -/
theorem Game.Rests.frame {g : Game} {i : Fin 5} (h : g.Rests i) (hi : i < 3)
    {direction : BitVec 2} (hover : (g.frame direction).player.OverFloor (g.frame direction).floors i)
    (hs : (g.frame direction).player.isSpiked = false) : (g.frame direction).Rests i := by
  have hstands := h.standsOn hi direction
  have hdeep := h.deep hs
  have hle := h.inv.floors_le i
  have hfloor := Game.frame_floorY_of_pos (g := g) (i := i) (by omega) direction
  -- feet at the top of the floor are in its contact window again
  have hfeet : (g.frame direction).player.yPos.toNat + 45
      = ((g.frame direction).floors.floorY i).toNat := hstands
  have hinv := Game.inv_frame h.inv direction
  have hinRange : (g.frame direction).player.yPos.toNat ≤ 479 := by omega
  have hcontact : contact (g.frame direction).player (g.frame direction).floors i = true :=
    (contact_iff hinRange (hinv.floors_le i)).mpr ⟨hs, by omega, by omega, hover⟩
  exact ⟨hinv, hinRange, (hinv.floorArm_iff i).mpr hcontact, by omega⟩

/-! ### Runs -/

/-- **Standing is stable.** From every reachable state in which the arm of floor 1, 2 or 3
    fires, on the screen and with the floor at least 46 deep: whatever the keys, the feet are
    exactly at the top of the floor in the next frame and in every later one, and the same arm
    fires in between, up to and including the first frame in which the player has left the
    columns of the floor or is spiked. -/
theorem standing_stable {g : Game} (h : g.Reachable) (hy : g.player.InYRange) {i : Fin 5}
    (hi : i < 3) (harm : floorArm g.player g.floors = some i) (hroom : 46 ≤ g.floors.floorY i)
    (dirs : ℕ → BitVec 2) (m : ℕ)
    (hstay : ∀ j < m, (trace Game.frame g dirs (j + 1)).player.OverFloor
        (trace Game.frame g dirs (j + 1)).floors i ∧
      (trace Game.frame g dirs (j + 1)).player.isSpiked = false) :
    (∀ j ≤ m, (trace Game.frame g dirs (j + 1)).StandsOn i) ∧
    ∀ j ≤ m, floorArm (trace Game.frame g dirs j).player (trace Game.frame g dirs j).floors
      = some i := by
  have hstart : g.Rests i := ⟨h.inv, Player.inYRange_iff.mp hy, harm, BitVec.le_def.mp hroom⟩
  have hrests : ∀ j ≤ m, (trace Game.frame g dirs j).Rests i := by
    intro j hj
    refine trace_stretch (I := fun t : Game => t.Rests i)
      (C := fun t : Game => t.player.OverFloor t.floors i ∧ t.player.isSpiked = false) hstart ?_ dirs j
      (fun k hk => hstay k (lt_of_lt_of_le hk hj))
    -- the stretch ends with the first frame that is off the floor or spiked
    intro t direction ht hover
    exact ht.frame hi hover.1 hover.2
  exact ⟨fun j hj => (hrests j hj).standsOn hi (dirs j), fun j hj => (hrests j hj).arm⟩

/-- Without keys the player falls on floor 2, and stands on it in the two following frames. -/
theorem standing_stable_floor2 :
    (trace Game.frame (gameAt (fun _ => 0) 19) (fun _ => 0) 2).StandsOn 1 :=
  (standing_stable (gameAt_reachable (fun _ => 0) 19) (by decide +kernel) (i := 1) (by decide)
    (by decide +kernel) (by decide +kernel) (fun _ => 0) 1
    (by decide +kernel)).1 1 (Nat.le_refl 1)

end NsShaft
