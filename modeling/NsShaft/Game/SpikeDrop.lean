import NsShaft.Game.Reachable

namespace NsShaft

open Hdl

/-!
# The drop after the spikes

A spiked player falls by `player_y_step` a frame through all floors until it is past
`spike_height + drop_height`.

* `Player.spiked_gates` — `is_spiked` switches all seven floor arms off.
* `Player.spiked_frame` — the frame of a spiked player, whatever the keys and the floors.
* `spike_drop` — the whole drop, from any state and with the floors anywhere.
-/

/-! ### The gate -/

/-- **Gate.** No contact test and no jump zone test holds for a spiked player. -/
theorem Player.spiked_gates {p : Player} (hs : p.isSpiked = true) (f : Floors) (i : Fin 5) :
    contact p f i = false ∧ inJumpZone p (f.floorX i) (f.floorY i) = false := by
  constructor
  · simp [contact, onFloor, hs]
  · simp [inJumpZone, hs]

/-- No contact arm fires for a spiked player. -/
theorem Player.spiked_floorArm {p : Player} (hs : p.isSpiked = true) (f : Floors) :
    floorArm p f = none := by
  show List.find? _ _ = none
  rw [List.find?_eq_none]
  intro i _
  rw [(p.spiked_gates hs f i).1]
  exact Bool.false_ne_true

/-- The frame of a spiked player moves it as the boundary chain says and ends any bounce. -/
theorem Player.spiked_frame {p : Player} (hs : p.isSpiked = true) (direction : BitVec 2)
    (f : Floors) :
    (p.frame direction f).yPos = (yBoundary p).1 ∧ (p.frame direction f).jumpState = false := by
  rcases p.frame_cases direction f with ⟨i, harm, -⟩ | ⟨-, hpos, -, hjump⟩
  · rw [p.spiked_floorArm hs f] at harm
    exact absurd harm (by simp)
  · refine ⟨hpos, Bool.eq_false_iff.mpr fun hj => ?_⟩
    obtain ⟨i, -, hlifts⟩ := hjump hj
    obtain ⟨hcontact, hzone⟩ := p.spiked_gates hs f i
    -- `jump_state` in the next frame would need a floor that lifts the player
    rcases hlifts with h | ⟨-, h⟩
    · exact absurd h (by rw [hcontact]; exact Bool.false_ne_true)
    · exact absurd h (by rw [hzone]; exact Bool.false_ne_true)

/-! ### One frame of the drop -/

/-- Down to `spike_height + drop_height` a spiked player falls by 2 and stays spiked. -/
theorem Player.drop_frame {p : Player} (hs : p.isSpiked = true) (hy : p.yPos.toNat ≤ 95)
    (direction : BitVec 2) (f : Floors) :
    (p.frame direction f).yPos.toNat = p.yPos.toNat + 2 ∧
      (p.frame direction f).isSpiked = true := by
  have hbuf : (p.frame direction f).isSpiked = (yBoundary p).2 := rfl
  rw [(p.spiked_frame hs direction f).1, hbuf]
  rcases yBoundary_cases (p := p) (by omega) with ⟨hbottom, -⟩ | ⟨-, -, h⟩ | ⟨-, -, hdeep, -⟩
  · omega
  · rw [h]
    exact ⟨by bv_omega, rfl⟩
  · have hout := hdeep hs
    omega

/-- Below that the mark is cleared. -/
theorem Player.drop_ends {p : Player} (hlow : 95 < p.yPos.toNat) (hy : p.yPos.toNat ≤ 479)
    (direction : BitVec 2) (f : Floors) : (p.frame direction f).isSpiked = false := by
  show (yBoundary p).2 = false
  rcases yBoundary_cases hy with ⟨-, h⟩ | ⟨hin, -⟩ | ⟨-, -, -, h⟩
  · rw [h]
  · omega
  · rw [h]

/-! ### The whole drop -/

/-- **Step count.** Up to frame `k` the player has fallen by `2 * k`, as long as it has not
    passed `spike_height + drop_height` before. -/
theorem drop_yPos {g : Game} (hs : g.player.isSpiked = true) (dirs : ℕ → BitVec 2) {k : ℕ}
    (hk : g.player.yPos.toNat + 2 * k ≤ 97) :
    (trace Game.frame g dirs k).player.yPos.toNat = g.player.yPos.toNat + 2 * k ∧
      (trace Game.frame g dirs k).player.isSpiked = true := by
  induction k with
  | zero => exact ⟨rfl, hs⟩
  | succ k ih =>
    obtain ⟨hpos, hspiked⟩ := ih (by omega)
    obtain ⟨hpos', hspiked'⟩ := Player.drop_frame hspiked (by omega) (dirs k)
      (trace Game.frame g dirs k).floors
    refine ⟨?_, hspiked'⟩
    show ((trace Game.frame g dirs k).player.frame (dirs k)
      (trace Game.frame g dirs k).floors).yPos.toNat = _
    rw [hpos', hpos]
    omega

/-- **Spike drop.** From every state with `is_spiked = 1` and
    `player_y_pos <= spike_height + drop_height`, whatever the keys and wherever the floors are,
    there is a first frame `n`, at most the 48th, in which the player is past that height.  Up
    to it the player falls by 2 a frame, stays spiked and is touched and bounced by no floor;
    `jump_state` is 0 from the first frame on; and the frame clears `is_spiked`, so that in the
    next one the contact tests are those of a player that was never spiked. -/
theorem spike_drop (g : Game) (hs : g.player.isSpiked = true)
    (hy : g.player.yPos ≤ spikeHeight + dropHeight) (dirs : ℕ → BitVec 2) :
    ∃ n ≤ 48, spikeHeight + dropHeight < (trace Game.frame g dirs n).player.yPos ∧
      (∀ k < n, (trace Game.frame g dirs k).player.yPos ≤ spikeHeight + dropHeight) ∧
      (∀ k ≤ n, (trace Game.frame g dirs k).player.yPos.toNat = g.player.yPos.toNat + 2 * k ∧
        (trace Game.frame g dirs k).player.isSpiked = true ∧
        (1 ≤ k → (trace Game.frame g dirs k).player.jumpState = false) ∧
        floorArm (trace Game.frame g dirs k).player (trace Game.frame g dirs k).floors = none ∧
        ∀ i, ¬ (trace Game.frame g dirs k).player.Lifts (trace Game.frame g dirs k).floors i) ∧
      (trace Game.frame g dirs (n + 1)).player.isSpiked = false ∧
      ∀ i, contact (trace Game.frame g dirs (n + 1)).player (trace Game.frame g dirs (n + 1)).floors i
          = true ↔
        (trace Game.frame g dirs (n + 1)).player.yPos + playerYSize
            - (trace Game.frame g dirs (n + 1)).floors.floorY i ≤ floorYSize ∧
          (trace Game.frame g dirs (n + 1)).player.OverFloor
            (trace Game.frame g dirs (n + 1)).floors i := by
  have hstart : g.player.yPos.toNat ≤ 95 := BitVec.le_def.mp hy
  have hsum : (spikeHeight + dropHeight).toNat = 95 := rfl
  -- the number of frames depends on the parity of the height
  have hdrop : ∀ k ≤ (95 - g.player.yPos.toNat) / 2 + 1,
      (trace Game.frame g dirs k).player.yPos.toNat = g.player.yPos.toNat + 2 * k ∧
        (trace Game.frame g dirs k).player.isSpiked = true :=
    fun k hk => drop_yPos hs dirs (by omega)
  have hlast := (hdrop _ (Nat.le_refl _)).1
  have hclear : (trace Game.frame g dirs ((95 - g.player.yPos.toNat) / 2 + 1 + 1)).player.isSpiked
      = false := Player.drop_ends (by omega) (by omega) (dirs _) _
  refine ⟨(95 - g.player.yPos.toNat) / 2 + 1, by omega, ?_, ?_, ?_, hclear, ?_⟩
  · rw [BitVec.lt_def, hsum]
    omega
  · -- before frame `n` the player is at most 95 deep, since each frame adds 2
    intro k hk
    have hpos := (hdrop k (Nat.le_of_lt hk)).1
    rw [BitVec.le_def, hsum]
    omega
  · intro k hk
    obtain ⟨hpos, hspiked⟩ := hdrop k hk
    refine ⟨hpos, hspiked, fun hone => ?_, Player.spiked_floorArm hspiked _, fun i => ?_⟩
    · -- `jump_state` may still be set in frame 0; the frame that follows clears it
      obtain ⟨j, rfl⟩ := Nat.exists_eq_add_of_le' hone
      exact (Player.spiked_frame (hdrop j (by omega)).2 (dirs j) _).2
    · obtain ⟨hcontact, hzone⟩ := Player.spiked_gates hspiked (trace Game.frame g dirs k).floors i
      simp [Player.Lifts, hcontact, hzone]
  · intro i
    unfold contact
    rw [onFloor_iff]
    simp only [hclear, true_and]
    rfl

/-- Without keys the player rises into the spikes from floor 4 and is at height 37 in frame 242,
    with `jump_state` still set. -/
theorem spike_drop_frame242 : ∃ n ≤ 48,
    spikeHeight + dropHeight < (trace Game.frame (gameAt (fun _ => 0) 242) (fun _ => 0) n).player.yPos ∧
      (trace Game.frame (gameAt (fun _ => 0) 242) (fun _ => 0) (n + 1)).player.isSpiked = false := by
  obtain ⟨n, hn, hpast, -, -, hclear, -⟩ := spike_drop (gameAt (fun _ => 0) 242)
    (by decide +kernel) (by decide +kernel) (fun _ => 0)
  exact ⟨n, hn, hpast, hclear⟩

end NsShaft
