import NsShaft.Game.Reachable

namespace NsShaft

open Hdl

/-!
# No tunnelling

A player that passes the top of a floor from above is caught by it.  In one frame a player that
is not spiked sinks by at most `player_y_step` (`Game.frame_sinks_le`) while the floor rises by
one, so its feet enter the 20 pixels of the contact window instead of jumping over them.
-/

/-- Whatever moves it, a player above the bottom edge that the frame does not spike and that
    stays on the screen sinks by at most 2. -/
theorem Game.frame_sinks_le {g : Game} (h : g.Inv) (hlow : g.player.yPos.toNat < 434)
    {direction : BitVec 2} (hy' : (g.frame direction).player.yPos.toNat ≤ 479)
    (hs : (g.frame direction).player.isSpiked = false) :
    (g.frame direction).player.yPos.toNat ≤ g.player.yPos.toNat + 2 := by
  have hy : g.player.yPos.toNat ≤ 479 := by omega
  have hbuf : (yBoundary g.player).2 = false := hs
  rcases g.player.frame_cases direction g.floors with ⟨j, harm, -, hpos, -⟩ | ⟨-, hpos, -⟩
  · -- put on another floor, it moves up to that floor's top
    have hle := h.floors_le j
    obtain ⟨-, htop, -, -⟩ := (contact_iff hy hle).mp ((h.floorArm_iff j).mp harm)
    have hsnap : (g.frame direction).player.yPos = snapTo (g.floors.floorY j) := hpos
    rw [hsnap] at hy' ⊢
    have hroom := (snapTo_contained_iff hle).mp hy'
    unfold snapTo playerYSize floorStep at hroom ⊢
    bv_omega
  · have hmove : (g.frame direction).player.yPos = (yBoundary g.player).1 := hpos
    have hmotion := h.yMotion.toNat
    rw [hmove]
    rcases yBoundary_cases hy with ⟨hbottom, -⟩ | ⟨-, -, hspiked⟩ | ⟨hin, -, -, hb⟩
    · omega
    · -- pushed down by the spikes it would be spiked
      rw [hspiked] at hbuf
      exact absurd hbuf.symm Bool.false_ne_true
    · rw [hb]
      bv_omega

/-- **No tunnelling.** In every reachable state, with any keys: if the feet are above the top of
    floor `i` before a frame and at or below it after the frame, with the player on the screen
    both times and, after the frame, in the columns of the floor and not spiked, then the arm of
    floor `i` is the one that fires next. -/
theorem no_tunnelling {g : Game} (h : g.Reachable) (direction : BitVec 2) (i : Fin 5)
    (hy : g.player.InYRange) (hy' : (g.frame direction).player.InYRange)
    (habove : g.player.yPos + playerYSize < g.floors.floorY i)
    (hbelow : (g.frame direction).floors.floorY i ≤ (g.frame direction).player.yPos + playerYSize)
    (hover : (g.frame direction).player.OverFloor (g.frame direction).floors i)
    (hs : (g.frame direction).player.isSpiked = false) :
    floorArm (g.frame direction).player (g.frame direction).floors = some i := by
  rw [Player.inYRange_iff] at hy hy'
  have hle := h.inv.floors_le i
  have hinv := Game.inv_frame h.inv direction
  -- on the screen neither side of the comparisons wraps
  have hfeet : g.player.yPos.toNat + 45 < (g.floors.floorY i).toNat := by
    unfold playerYSize at habove
    bv_omega
  have hfeet' : ((g.frame direction).floors.floorY i).toNat
      ≤ (g.frame direction).player.yPos.toNat + 45 := by
    unfold playerYSize at hbelow
    bv_omega
  have hfloor := Game.frame_floorY_of_pos (g := g) (i := i) (by omega) direction
  have hsinks := Game.frame_sinks_le h.inv (by omega) hy' hs
  -- the feet sink by 2 while the floor rises by 1: at most 2 below its top
  have hcontact : contact (g.frame direction).player (g.frame direction).floors i = true :=
    (contact_iff hy' (hinv.floors_le i)).mpr ⟨hs, hfeet', by omega, hover⟩
  exact (hinv.floorArm_iff i).mpr hcontact

/-- Without keys the player falls through the top of floor 2 in frame 19. -/
theorem no_tunnelling_floor2 :
    floorArm (gameAt (fun _ => 0) 19).player (gameAt (fun _ => 0) 19).floors = some 1 :=
  no_tunnelling (gameAt_reachable (fun _ => 0) 18) 0 1 (by decide +kernel) (by decide +kernel)
    (by decide +kernel) (by decide +kernel) (by decide +kernel) (by decide +kernel)

end NsShaft
