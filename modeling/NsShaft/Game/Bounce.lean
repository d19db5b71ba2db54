import NsShaft.Game.Reachable

namespace NsShaft

open Hdl

/-!
# Bounces

Floors 4 and 5 throw the player up: their contact arm sets `jump_state`, which turns the motion
registered in the *next* frame into a rise of 4, and the jump zone arms keep `jump_state` set up
to `jump_boundary` above the floor.  No register remembers which of the two floors started the
bounce, so a bounce on floor 5 that rises into the zone of floor 4, 70 pixels above, is carried
on by floor 4.

* `Game.Bounces` — the game one or two frames after floor `a` has last lifted the player.
* `Game.Bounces.step` — the next frame: lifted again, released, or over with a rise of at most
  `jump_boundary + 9`.
* `Game.ClearOfFloor5` — what keeps floor 5 out of a bounce on floor 4.
* `bounce_bounded` — the height of a bounce over whole runs.
-/

/-! ### Heights -/

/-- `floor_i_Y - player_y_pos`, without wrapping. -/
def Game.rise (g : Game) (i : Fin 5) : ℤ := ((g.floors.floorY i).toNat : ℤ) - g.player.yPos.toNat

/-- The bounce is over: `jump_state` is 0 and the player no longer rises. -/
def Player.BounceOver (p : Player) : Prop := p.jumpState = false ∧ p.yMotion ≠ -4

instance (p : Player) : Decidable p.BounceOver := inferInstanceAs (Decidable (_ ∧ _))

/-- The jump floors are floor 4 and floor 5. -/
theorem eq_of_jumpFloor : ∀ {a : Fin 5}, 3 ≤ a → a = 3 ∨ a = 4 := by decide

/-- Floor 5 stands 70 below floor 4, or 390 above it. -/
theorem Game.Inv.rise_floor5 {g : Game} (h : g.Inv) :
    g.rise 4 = g.rise 3 + 70 ∨ g.rise 4 = g.rise 3 - 390 := by
  obtain ⟨n, hn⟩ := h.floors
  have h3 := hn.yPos 3
  have h4 := hn.yPos 4
  have hs3 : floorYStart 3 = 350 := rfl
  have hs4 : floorYStart 4 = 420 := rfl
  unfold Game.rise
  omega

/-- A floor that lifts the player has it in its columns and at most `jump_boundary` above it. -/
theorem Game.Inv.lifts_bounds {g : Game} (h : g.Inv) (hy : g.player.yPos.toNat ≤ 479) {a : Fin 5}
    (hlifts : g.player.Lifts g.floors a) :
    g.player.isSpiked = false ∧ 0 ≤ g.rise a ∧ g.rise a ≤ 75 ∧
      g.player.OverFloor g.floors a ∧
      (g.player.jumpState = false → 25 ≤ g.rise a ∧ g.rise a ≤ 45) := by
  have hle := h.floors_le a
  unfold Game.rise
  rcases hlifts with hcontact | ⟨hj, hzone⟩
  · -- lifted at the contact itself: the feet are in the 20 rows of the contact window
    obtain ⟨hs, htop, hbottom, hover⟩ := (contact_iff hy hle).mp hcontact
    exact ⟨hs, by omega, by omega, hover, fun _ => by omega⟩
  · -- kept up in the jump zone, which needs `jump_state`
    obtain ⟨hs, htop, hheight, hover⟩ := (inJumpZone_iff hy hle).mp hzone
    refine ⟨hs, by omega, by omega, hover, fun hfalse => ?_⟩
    rw [hj] at hfalse
    exact absurd hfalse.symm Bool.false_ne_true

/-! ### States of a bounce -/

/-- The heights and motions of a bounce: between the spikes and the bottom edge, with room for
    the two frames in which the player still falls. -/
structure Game.InFlight (g : Game) : Prop where
  inv : g.Inv
  high : 32 ≤ g.player.yPos.toNat
  low : g.player.yPos.toNat ≤ 432
  falling : g.player.yMotion = 2 → g.player.yPos.toNat ≤ 430
  restart : g.player.jumpState = false → g.player.yMotion = -4 ∨ g.player.yPos.toNat ≤ 428

/-- The game `r` frames after floor `a` has last lifted the player: `jump_state` is set in the
    first of them, the motion still rises in the second. -/
structure Game.Bounces (g : Game) (a : Fin 5) (r : ℕ) : Prop where
  flight : g.InFlight
  jumpFloor : 3 ≤ a
  phase : (r = 1 ∧ g.player.jumpState = true) ∨
    (r = 2 ∧ g.player.jumpState = false ∧ g.player.yMotion = -4)
  moving : g.player.yMotion ≠ 0
  rise_ge : -3 * (r : ℤ) ≤ g.rise a
  rise_le : g.rise a ≤ 75 + 3 * (r : ℤ)
  left : (g.floors.floorX a).toNat ≤ g.player.xPos.toNat + 30 + 5 * r
  right : g.player.xPos.toNat ≤ (g.floors.floorX a).toNat + 90 + 5 * r

theorem Game.Bounces.frames {g : Game} {a : Fin 5} {r : ℕ} (h : g.Bounces a r) :
    r = 1 ∨ r = 2 := by
  rcases h.phase with ⟨hr, -⟩ | ⟨hr, -⟩
  · exact .inl hr
  · exact .inr hr

theorem Game.Bounces.lifted {g : Game} {a : Fin 5} (h : g.Bounces a 1) :
    g.player.jumpState = true := by
  rcases h.phase with ⟨-, hset⟩ | ⟨hr, -⟩
  · exact hset
  · exact absurd hr (by decide)

theorem Game.Bounces.released {g : Game} {a : Fin 5} (h : g.Bounces a 2) :
    g.player.jumpState = false ∧ g.player.yMotion = -4 := by
  rcases h.phase with ⟨hr, -⟩ | ⟨-, hreleased⟩
  · exact absurd hr (by decide)
  · exact hreleased

/-! ### One frame -/

/-- A frame moves the player sideways by at most 5. -/
theorem Player.frame_xPos_near {p : Player} (hm : p.XMotionBounded) (hx : 5 ≤ p.xPos.toNat)
    (hx' : p.xPos.toNat ≤ 1018) (direction : BitVec 2) (f : Floors) :
    p.xPos.toNat ≤ (p.frame direction f).xPos.toNat + 5 ∧
      (p.frame direction f).xPos.toNat ≤ p.xPos.toNat + 5 := by
  have hframe : (p.frame direction f).xPos = xGuard p direction := rfl
  unfold Player.XMotionBounded at hm
  rw [hframe]
  unfold xGuard
  split_ifs
  · omega
  · omega
  · constructor <;> bv_omega

/-- The frame of a player that no contact arm of floors 1 to 3 stops: the motion it registers
    falls by 2, or rises by 4 if `jump_state` is set. -/
theorem Player.frame_of_arm {p : Player} {f : Floors} (harm : ∀ c, floorArm p f = some c → 3 ≤ c)
    (direction : BitVec 2) :
    (p.frame direction f).yPos = (yBoundary p).1 ∧
      (p.jumpState = true → (p.frame direction f).yMotion = -4) ∧
      (p.jumpState = false → (p.frame direction f).yMotion = 2) ∧
      ((p.frame direction f).jumpState = true → ∃ a, 3 ≤ a ∧ p.Lifts f a) := by
  rcases p.frame_cases direction f with ⟨c, hc, hlt, -⟩ | ⟨-, hpos, hmotion, hjump⟩
  · have hge := harm c hc
    omega
  · refine ⟨hpos, fun hj => ?_, fun hj => ?_, hjump⟩
    · rw [hmotion, hj]
      rfl
    · rw [hmotion, hj]
      rfl

/-- What such a frame does to the height: the spikes push the player down by 2, or it moves by
    its motion. -/
theorem Game.InFlight.frame_yPos {g : Game} (h : g.InFlight) (direction : BitVec 2)
    (hpos : (g.frame direction).player.yPos = (yBoundary g.player).1) :
    ((g.frame direction).player.yPos.toNat = g.player.yPos.toNat + 2 ∧
      g.player.yPos.toNat ≤ 95 ∧ (g.frame direction).player.isSpiked = true) ∨
    (36 ≤ g.player.yPos.toNat ∧
      ((g.player.yMotion = 0 ∧ (g.frame direction).player.yPos.toNat = g.player.yPos.toNat) ∨
        (g.player.yMotion = 2 ∧ (g.frame direction).player.yPos.toNat = g.player.yPos.toNat + 2) ∨
        (g.player.yMotion = -4 ∧
          (g.frame direction).player.yPos.toNat + 4 = g.player.yPos.toNat))) := by
  have hlow := h.low
  have hbuf : (g.frame direction).player.isSpiked = (yBoundary g.player).2 := rfl
  rw [hpos, hbuf]
  rcases yBoundary_cases (p := g.player) (by omega) with ⟨hbottom, -⟩ | ⟨hin, -, hb⟩ | ⟨hin, -, -, hb⟩
  · -- the bottom edge is out of reach: the flight ends at 432
    omega
  · rw [hb]
    exact .inl ⟨by bv_omega, hin, rfl⟩
  · rw [hb]
    refine .inr ⟨hin, ?_⟩
    rcases h.inv.yMotion with hm | hm | hm <;> rw [hm]
    · exact .inl ⟨rfl, by bv_omega⟩
    · exact .inr (.inl ⟨rfl, by bv_omega⟩)
    · exact .inr (.inr ⟨rfl, by bv_omega⟩)

/-- The rise over a floor changes by the player's step and by the one pixel the floor moves. -/
theorem Game.InFlight.frame_rise {g : Game} (h : g.InFlight) {a : Fin 5} (ha : -31 ≤ g.rise a)
    (direction : BitVec 2) :
    (g.frame direction).rise a = g.rise a - 1
      + g.player.yPos.toNat - (g.frame direction).player.yPos.toNat := by
  have hhigh := h.high
  unfold Game.rise at ha ⊢
  have hfloor := Game.frame_floorY_of_pos (g := g) (i := a) (by omega) direction
  omega

/-- **Flight.** A frame in which floors 1 to 3 are not touched keeps the flight bounds, as long
    as `jump_state` is set before or after it. -/
theorem Game.InFlight.frame {g : Game} (h : g.InFlight) {direction : BitVec 2}
    (harm : ∀ c, floorArm g.player g.floors = some c → 3 ≤ c)
    (hjump : g.player.jumpState = true ∨ (g.frame direction).player.jumpState = true) :
    (g.frame direction).InFlight := by
  obtain ⟨hpos, hrises, hfalls, -⟩ := Player.frame_of_arm harm direction
  have hhigh := h.high
  have hlow := h.low
  have hfalling := h.falling
  have hrestart := h.restart
  have hy := h.frame_yPos direction hpos
  have hne : (2 : BitVec 10) ≠ -4 := by decide
  have hne0 : (0 : BitVec 10) ≠ -4 := by decide
  refine ⟨Game.inv_frame h.inv direction, by omega, ?_, fun hm => ?_, fun hj => ?_⟩
  · rcases hy with ⟨hstep, hin, -⟩ | ⟨-, ⟨-, hstep⟩ | ⟨hm, hstep⟩ | ⟨-, hstep⟩⟩
    · omega
    · omega
    · -- only a fall can come near the bottom edge, and it leaves room for one more frame
      have hfar := hfalling hm
      omega
    · omega
  · -- a fall is registered only when `jump_state` is 0
    have hj : g.player.jumpState = false := by
      rw [← Bool.not_eq_true]
      intro hj
      have hm4 : (g.frame direction).player.yMotion = -4 := hrises hj
      exact hne (hm.symm.trans hm4)
    rcases hy with ⟨hstep, hin, -⟩ | ⟨-, ⟨hm0, hstep⟩ | ⟨hm2, hstep⟩ | ⟨-, hstep⟩⟩
    · omega
    · -- at rest without `jump_state`, the player is one of those that are at most 428 deep
      rcases hrestart hj with hm4 | hfar
      · exact absurd (hm0.symm.trans hm4) hne0
      · omega
    · rcases hrestart hj with hm4 | hfar
      · exact absurd (hm2.symm.trans hm4) hne
      · omega
    · omega
  · -- `jump_state` was set before the frame: a rise of 4 is registered in it
    rcases hjump with hj' | hj'
    · exact .inl (hrises hj')
    · rw [hj] at hj'
      exact absurd hj' Bool.false_ne_true

/-- Floors 4 and 5 stand in the middle of the map. -/
theorem Game.Inv.jumpFloor_columns {g : Game} (h : g.Inv) {a : Fin 5} (ha : 3 ≤ a) :
    140 ≤ (g.floors.floorX a).toNat ∧ (g.floors.floorX a).toNat ≤ 190 := by
  have hstart : ∀ b : Fin 5, 3 ≤ b → 140 ≤ (Floors.start.floorX b).toNat ∧
      (Floors.start.floorX b).toNat ≤ 190 := by decide
  obtain ⟨n, hn⟩ := h.floors
  rw [hn.floorX a]
  exact hstart a ha

/-- The columns of a floor, `r` frames wide at either side, one frame later. -/
theorem Game.frame_columns {g : Game} (h : g.Inv) {a : Fin 5} (ha : 3 ≤ a) {r : ℕ} (hr : r ≤ 1)
    (hleft : (g.floors.floorX a).toNat ≤ g.player.xPos.toNat + 30 + 5 * r)
    (hright : g.player.xPos.toNat ≤ (g.floors.floorX a).toNat + 90 + 5 * r)
    (direction : BitVec 2) :
    ((g.frame direction).floors.floorX a).toNat
        ≤ (g.frame direction).player.xPos.toNat + 30 + 5 * (r + 1) ∧
      (g.frame direction).player.xPos.toNat
        ≤ ((g.frame direction).floors.floorX a).toNat + 90 + 5 * (r + 1) := by
  have hbounds := h.jumpFloor_columns ha
  have hframe : (g.frame direction).floors.floorX a = g.floors.floorX a := rfl
  rw [hframe]
  have hnear : g.player.xPos.toNat ≤ (g.frame direction).player.xPos.toNat + 5 ∧
      (g.frame direction).player.xPos.toNat ≤ g.player.xPos.toNat + 5 :=
    Player.frame_xPos_near h.xMotion (by omega) (by omega) direction g.floors
  omega

/-! ### The steps of a bounce -/

/-- **No landing.** During a bounce floors 1 to 3 are out of reach: each is too far from floors 4
    and 5 in height, but for floor 3, 50 above floor 4, whose columns end 20 to the left of it. -/
theorem Game.Bounces.floorArm_ge {g : Game} {a : Fin 5} {r : ℕ} (h : g.Bounces a r) (c : Fin 5)
    (hc : floorArm g.player g.floors = some c) : 3 ≤ c := by
  by_contra hlt
  have hlow := h.flight.low
  have hge := h.rise_ge
  have hle := h.rise_le
  have hleft := h.left
  have hr := h.frames
  have hcontact := (h.flight.inv.floorArm_iff c).mp hc
  obtain ⟨-, htop, hbottom, hover⟩ :=
    (contact_iff (by omega) (h.flight.inv.floors_le c)).mp hcontact
  obtain ⟨n, hn⟩ := h.flight.inv.floors
  have ha := hn.yPos a
  have hc' := hn.yPos c
  have htable : ∀ a c : Fin 5, 3 ≤ a → ¬ 3 ≤ c →
      (56 < ((floorYStart a : ℤ) - floorYStart c) % 460 ∧
        ((floorYStart a : ℤ) - floorYStart c) % 460 < 409) ∨
      (Floors.start.floorX a = 190 ∧ floorXSize + Floors.start.floorX c ≤ 140) := by decide
  unfold Game.rise at hge hle
  rcases htable a c h.jumpFloor hlt with hfar | ⟨hxa, hxc⟩
  · -- the floors are too far apart for the contact window of `c`, whatever the shift
    omega
  · -- floor 3 under floor 4: its contact columns end left of those of the bounce
    rw [hn.floorX a, hxa] at hleft
    have hright := hover.2
    rw [hn.floorX c] at hright
    have hx : g.player.xPos ≤ 140 := BitVec.le_trans hright hxc
    have hx' : g.player.xPos.toNat ≤ 140 := BitVec.le_def.mp hx
    have h190 : (190 : BitVec 10).toNat = 190 := rfl
    omega

/-- **Lift.** The frame after floor `a` lifts the player is the first of a bounce. -/
theorem Game.InFlight.lift {g : Game} (h : g.InFlight) {direction : BitVec 2}
    (harm : ∀ c, floorArm g.player g.floors = some c → 3 ≤ c) {a : Fin 5} (ha : 3 ≤ a)
    (hlifts : g.player.Lifts g.floors a) (hj : (g.frame direction).player.jumpState = true) :
    (g.frame direction).Bounces a 1 := by
  have hlow := h.low
  obtain ⟨hpos, hrises, hfalls, -⟩ := Player.frame_of_arm harm direction
  obtain ⟨-, hge, hle, hover, -⟩ := h.inv.lifts_bounds (by omega) hlifts
  have hrise := h.frame_rise (a := a) (by omega) direction
  have hy := h.frame_yPos direction hpos
  -- at the contact the player is over the floor, so the columns start with no slack
  have hcol : (g.floors.floorX a).toNat ≤ g.player.xPos.toNat + 30 + 5 * 0 ∧
      g.player.xPos.toNat ≤ (g.floors.floorX a).toNat + 90 + 5 * 0 := by
    have hbounds := h.inv.jumpFloor_columns ha
    obtain ⟨hl, hr⟩ := hover
    unfold playerXSize at hl
    unfold floorXSize at hr
    constructor <;> bv_omega
  obtain ⟨hleft, hright⟩ := Game.frame_columns h.inv ha (by omega) hcol.1 hcol.2 direction
  refine ⟨h.frame harm (.inr hj), ha, .inl ⟨rfl, hj⟩, ?_, ?_, ?_, hleft, hright⟩
  · -- what is registered is never 0
    rcases Bool.eq_false_or_eq_true g.player.jumpState with hold | hold
    · have hm : (g.frame direction).player.yMotion = -4 := hrises hold
      rw [hm]
      decide
    · have hm : (g.frame direction).player.yMotion = 2 := hfalls hold
      rw [hm]
      decide
  · omega
  · omega

/-- **Release.** The frame that finds no floor to lift the player still registers a rise. -/
theorem Game.Bounces.release {g : Game} {a : Fin 5} (h : g.Bounces a 1) {direction : BitVec 2}
    (hj : (g.frame direction).player.jumpState = false) : (g.frame direction).Bounces a 2 := by
  have hset := h.lifted
  obtain ⟨hpos, hrises, -, -⟩ := Player.frame_of_arm h.floorArm_ge direction
  have hm : (g.frame direction).player.yMotion = -4 := hrises hset
  have hge := h.rise_ge
  have hle := h.rise_le
  have hrise := h.flight.frame_rise (a := a) (by omega) direction
  have hy := h.flight.frame_yPos direction hpos
  obtain ⟨hleft, hright⟩ :=
    Game.frame_columns h.flight.inv h.jumpFloor (by omega) h.left h.right direction
  refine ⟨h.flight.frame h.floorArm_ge (.inl hset), h.jumpFloor, .inr ⟨rfl, hj, hm⟩, ?_, ?_, ?_,
    hleft, hright⟩
  · rw [hm]
    decide
  · omega
  · omega

/-- **End.** If the frame after that finds none either, the bounce is over, at most
    `jump_boundary + 9` above the floor. -/
theorem Game.Bounces.over {g : Game} {a : Fin 5} (h : g.Bounces a 2) {direction : BitVec 2}
    (hj : (g.frame direction).player.jumpState = false) :
    (g.frame direction).player.BounceOver ∧ (g.frame direction).rise a ≤ 84 := by
  obtain ⟨hpos, -, hfalls, -⟩ := Player.frame_of_arm h.floorArm_ge direction
  have hm : (g.frame direction).player.yMotion = 2 := hfalls h.released.1
  have hge := h.rise_ge
  have hle := h.rise_le
  have hrise := h.flight.frame_rise (a := a) (by omega) direction
  have hy := h.flight.frame_yPos direction hpos
  refine ⟨⟨hj, ?_⟩, by omega⟩
  rw [hm]
  decide

/-- **Step.** The frame after a state of a bounce is one of a bounce again, on the floor that
    lifts the player or on the same one, or the bounce is over. -/
theorem Game.Bounces.step {g : Game} {a : Fin 5} {r : ℕ} (h : g.Bounces a r)
    (direction : BitVec 2) :
    (∃ b, 3 ≤ b ∧ g.player.Lifts g.floors b ∧ (g.frame direction).Bounces b 1) ∨
    (r = 1 ∧ (g.frame direction).Bounces a 2) ∨
    ((g.frame direction).player.BounceOver ∧ (g.frame direction).rise a ≤ 84) := by
  rcases Bool.eq_false_or_eq_true (g.frame direction).player.jumpState with hj | hj
  · obtain ⟨-, -, -, hjump⟩ := Player.frame_of_arm h.floorArm_ge direction
    -- lifted again, by whichever floor set `jump_state`
    obtain ⟨b, hb, hlifts⟩ := hjump hj
    exact .inl ⟨b, hb, hlifts, h.flight.lift h.floorArm_ge hb hlifts hj⟩
  · rcases h.frames with rfl | rfl
    · -- released: the rise already registered is still to come
      exact .inr (.inl ⟨rfl, h.release hj⟩)
    · exact .inr (.inr (h.over hj))

/-- The rise over the floor that has lifted the player last is bounded in the next frame. -/
theorem Game.Bounces.step_rise {g : Game} {a : Fin 5} {r : ℕ} (h : g.Bounces a r)
    (direction : BitVec 2) :
    ∃ b, 3 ≤ b ∧ (b = a ∨ g.player.Lifts g.floors b) ∧ (g.frame direction).rise b ≤ 84 := by
  rcases h.step direction with ⟨b, hb, hlifts, hb'⟩ | ⟨-, hb'⟩ | ⟨-, hle⟩
  · have hle := hb'.rise_le
    exact ⟨b, hb, .inr hlifts, by omega⟩
  · have hle := hb'.rise_le
    exact ⟨a, h.jumpFloor, .inl rfl, by omega⟩
  · exact ⟨a, h.jumpFloor, .inl rfl, hle⟩

/-! ### Bounces on floor 4 -/

/-- Floor 5 is 70 below floor 4, so it lifts a player only up to 5 above floor 4.  These bounds,
    the least rise over floor 4 in each phase of a bounce on it, keep the player higher. -/
structure Game.ClearOfFloor5 (g : Game) : Prop where
  rise : 13 ≤ g.rise 3
  lifted : g.player.jumpState = true → 16 ≤ g.rise 3
  unspiked : g.player.jumpState = true → g.player.isSpiked = false → 19 ≤ g.rise 3
  falling : g.player.yMotion = 2 → 22 ≤ g.rise 3

/-- Floor 5 does not lift a player that is clear of it. -/
theorem Game.ClearOfFloor5.not_lifts {g : Game} (h : g.ClearOfFloor5) {r : ℕ}
    (hb : g.Bounces 3 r) : ¬ g.player.Lifts g.floors 4 := by
  intro hlifts
  have hlow := hb.flight.low
  have hrise := h.rise
  have hle := hb.rise_le
  have hr := hb.frames
  obtain ⟨hs, hge4, hle4, -, hstart⟩ := hb.flight.inv.lifts_bounds (by omega) hlifts
  rcases Bool.eq_false_or_eq_true g.player.jumpState with hj | hj
  · -- during a bounce floor 5 lifts up to 75 above it, which is 5 above floor 4
    have hhigh := h.unspiked hj hs
    rcases hb.flight.inv.rise_floor5 with h5 | h5 <;> omega
  · -- a first contact of floor 5 is at most 45 above it, far below floor 4
    have hcontact := hstart hj
    rcases hb.flight.inv.rise_floor5 with h5 | h5 <;> omega

/-- Lifted by floor 4, the player is clear of floor 5 in the next frame: at once after a contact,
    and later because it was clear before. -/
theorem Game.ClearOfFloor5.lift {g : Game} (h : g.InFlight) {direction : BitVec 2}
    (harm : ∀ c, floorArm g.player g.floors = some c → 3 ≤ c)
    (hlifts : g.player.Lifts g.floors 3)
    (hclear : g.player.jumpState = true → g.ClearOfFloor5 ∧ g.player.yMotion ≠ 0) :
    (g.frame direction).ClearOfFloor5 := by
  have hlow := h.low
  obtain ⟨hpos, hrises, -, -⟩ := Player.frame_of_arm harm direction
  obtain ⟨hs, hge, hle, -, hstart⟩ := h.inv.lifts_bounds (by omega) hlifts
  have hrise := h.frame_rise (a := 3) (by omega) direction
  have hy := h.frame_yPos direction hpos
  rcases Bool.eq_false_or_eq_true g.player.jumpState with hj | hj
  · obtain ⟨hc, hmoving⟩ := hclear hj
    have hunspiked := hc.unspiked hj hs
    have hfalling := hc.falling
    have hm : (g.frame direction).player.yMotion = -4 := hrises hj
    have hnofall : (g.frame direction).player.yMotion ≠ 2 := by
      rw [hm]
      decide
    rcases hy with ⟨hstep, -, hspiked⟩ | ⟨-, ⟨hm0, -⟩ | ⟨hm2, hstep⟩ | ⟨-, hstep⟩⟩
    · -- pushed down by the spikes, the player is spiked
      refine ⟨by omega, fun _ => by omega, fun _ hfree => ?_, fun hm2 => absurd hm2 hnofall⟩
      rw [hspiked] at hfree
      exact absurd hfree.symm Bool.false_ne_true
    · exact absurd hm0 hmoving
    · -- the frame after the contact still carries out the fall registered before it
      have hfar := hfalling hm2
      exact ⟨by omega, fun _ => by omega, fun _ _ => by omega, fun hm2 => absurd hm2 hnofall⟩
    · -- rising, the player gains on the floor
      exact ⟨by omega, fun _ => by omega, fun _ _ => by omega, fun hm2 => absurd hm2 hnofall⟩
  · -- at a first contact `player_y_pos` is 25 to 45 above the top of floor 4
    have hcontact := hstart hj
    exact ⟨by omega, fun _ => by omega, fun _ _ => by omega, fun _ => by omega⟩

/-- Released, the player has lost at most 3 of its rise. -/
theorem Game.ClearOfFloor5.release {g : Game} (h : g.ClearOfFloor5) (hb : g.Bounces 3 1)
    {direction : BitVec 2} (hb' : (g.frame direction).Bounces 3 2) :
    (g.frame direction).ClearOfFloor5 := by
  obtain ⟨hj, hm⟩ := hb'.released
  obtain ⟨hpos, -⟩ := Player.frame_of_arm hb.floorArm_ge direction
  have hlifted := h.lifted hb.lifted
  have hrise := hb.flight.frame_rise (a := 3) (by omega) direction
  have hy := hb.flight.frame_yPos direction hpos
  refine ⟨by omega, fun hset' => ?_, fun hset' => ?_, fun hm2 => ?_⟩
  · rw [hj] at hset'
    exact absurd hset' Bool.false_ne_true
  · rw [hj] at hset'
    exact absurd hset' Bool.false_ne_true
  · rw [hm] at hm2
    exact absurd hm2 (by decide)

/-! ### Runs -/

/-- A contact that finds `jump_state = 0` between the spikes and the bottom edge starts a bounce. -/
structure Game.StartsBounce (g : Game) (i : Fin 5) : Prop where
  flight : g.InFlight
  jumpFloor : 3 ≤ i
  arm : floorArm g.player g.floors = some i
  resting : g.player.jumpState = false

theorem Game.StartsBounce.floorArm_ge {g : Game} {i : Fin 5} (h : g.StartsBounce i) (c : Fin 5)
    (hc : floorArm g.player g.floors = some c) : 3 ≤ c := by
  rw [h.arm] at hc
  exact Option.some.inj hc ▸ h.jumpFloor

theorem Game.StartsBounce.lifts {g : Game} {i : Fin 5} (h : g.StartsBounce i) :
    g.player.Lifts g.floors i := .inl (test_of_firstArm h.arm)

/-- The frame after the contact. -/
theorem Game.StartsBounce.first {g : Game} {i : Fin 5} (h : g.StartsBounce i)
    (direction : BitVec 2) : (g.frame direction).Bounces i 1 :=
  h.flight.lift h.floorArm_ge h.jumpFloor h.lifts
    (Player.frame_jumpState_of_arm h.arm h.jumpFloor direction)

/-- **Run.** Until the bounce is over, the game is one or two frames after some floor has lifted
    the player: the floor of the contact, or one that has kept the bounce up since. -/
theorem Game.StartsBounce.bounces {g : Game} {i : Fin 5} (h : g.StartsBounce i)
    (dirs : ℕ → BitVec 2) (m : ℕ)
    (huntil : ∀ j < m, ¬ (trace Game.frame g dirs (j + 2)).player.BounceOver) :
    ∃ a r, (trace Game.frame g dirs (m + 1)).Bounces a r ∧
      (a = i ∨ ∃ j ≤ m, (trace Game.frame g dirs j).player.Lifts (trace Game.frame g dirs j).floors a) := by
  induction m with
  | zero => exact ⟨i, 1, h.first (dirs 0), .inl rfl⟩
  | succ m ih =>
    obtain ⟨a, r, hb, hpast⟩ := ih fun j hj => huntil j (Nat.lt_succ_of_lt hj)
    rcases hb.step (dirs (m + 1)) with ⟨b, -, hlifts, hb'⟩ | ⟨-, hb'⟩ | ⟨hover, -⟩
    · -- lifted again: the frame itself is the one that names the floor
      exact ⟨b, 1, hb', .inr ⟨m + 1, Nat.le_refl _, hlifts⟩⟩
    · refine ⟨a, 2, hb', ?_⟩
      rcases hpast with rfl | ⟨j, hj, hlifts⟩
      · exact .inl rfl
      · exact .inr ⟨j, Nat.le_succ_of_le hj, hlifts⟩
    · exact absurd hover (huntil m (Nat.lt_succ_self m))

/-- A bounce on floor 4 stays one on floor 4. -/
theorem Game.StartsBounce.bounces_floor4 {g : Game} (h : g.StartsBounce 3)
    (dirs : ℕ → BitVec 2) (m : ℕ)
    (huntil : ∀ j < m, ¬ (trace Game.frame g dirs (j + 2)).player.BounceOver) :
    (∃ r, (trace Game.frame g dirs (m + 1)).Bounces 3 r) ∧
      (trace Game.frame g dirs (m + 1)).ClearOfFloor5 := by
  induction m with
  | zero =>
    have hclear : (g.frame (dirs 0)).ClearOfFloor5 :=
      Game.ClearOfFloor5.lift h.flight h.floorArm_ge h.lifts fun hj => by
        rw [h.resting] at hj
        exact absurd hj Bool.false_ne_true
    exact ⟨⟨1, h.first (dirs 0)⟩, hclear⟩
  | succ m ih =>
    obtain ⟨⟨r, hb⟩, hclear⟩ := ih fun j hj => huntil j (Nat.lt_succ_of_lt hj)
    rcases hb.step (dirs (m + 1)) with ⟨b, hge, hlifts, hb'⟩ | ⟨hr, hb'⟩ | ⟨hover, -⟩
    · rcases eq_of_jumpFloor hge with rfl | rfl
      · exact ⟨⟨1, hb'⟩, Game.ClearOfFloor5.lift hb.flight hb.floorArm_ge hlifts
          fun _ => ⟨hclear, hb.moving⟩⟩
      · -- floor 5 cannot take over
        exact absurd hlifts (hclear.not_lifts hb)
    · rw [hr] at hb
      exact ⟨⟨2, hb'⟩, hclear.release hb hb'⟩
    · exact absurd hover (huntil m (Nat.lt_succ_self m))

/-- **Bounce height.** In every reachable state in which the contact arm of floor 4 or 5 fires with
    `jump_state = 0`, clear of the spikes and of the bottom edge: whatever the keys, in every
    following frame up to the one in which the bounce is over the player is at most
    `jump_boundary + 9` above that floor.  The exception is a bounce on floor 5 that floor 4 has
    kept up in an earlier frame: there the player is at most `jump_boundary + 9` above floor 4,
    which makes 154 above floor 5. -/
theorem bounce_bounded {g : Game} (h : g.Reachable) {i : Fin 5} (hi : 3 ≤ i)
    (harm : floorArm g.player g.floors = some i) (hj : g.player.jumpState = false)
    (hhigh : 36 ≤ g.player.yPos) (hlow : g.player.yPos ≤ 428) (dirs : ℕ → BitVec 2) (m : ℕ)
    (huntil : ∀ j < m, ¬ (trace Game.frame g dirs (j + 1)).player.BounceOver) :
    (trace Game.frame g dirs (m + 1)).rise i ≤ 84 ∨
    (i = 4 ∧ (trace Game.frame g dirs (m + 1)).rise 3 ≤ 84 ∧
      (trace Game.frame g dirs (m + 1)).rise 4 ≤ 154 ∧
      ∃ j ≤ m, (trace Game.frame g dirs j).player.Lifts (trace Game.frame g dirs j).floors 3) := by
  have hy : 36 ≤ g.player.yPos.toNat ∧ g.player.yPos.toNat ≤ 428 := ⟨by bv_omega, by bv_omega⟩
  have hstart : g.StartsBounce i :=
    ⟨⟨h.inv, by omega, by omega, fun _ => by omega, fun _ => .inr hy.2⟩, hi, harm, hj⟩
  rcases m with _ | m
  · -- the frame after the contact
    have hle := (hstart.first (dirs 0)).rise_le
    exact .inl (le_trans hle (by decide))
  have hpast : ∀ j < m, ¬ (trace Game.frame g dirs (j + 2)).player.BounceOver :=
    fun j hj' => huntil (j + 1) (by omega)
  rcases eq_of_jumpFloor hi with rfl | rfl
  · -- on floor 4, no other floor lifts the player
    left
    obtain ⟨⟨r, hb⟩, hclear⟩ := hstart.bounces_floor4 dirs m hpast
    obtain ⟨b, hge, hor, hle⟩ := hb.step_rise (dirs (m + 1))
    rcases eq_of_jumpFloor hge with rfl | rfl
    · exact hle
    · rcases hor with heq | hlifts
      · exact absurd heq (by decide)
      · exact absurd hlifts (hclear.not_lifts hb)
  · obtain ⟨a, r, hb, hpasts⟩ := hstart.bounces dirs m hpast
    obtain ⟨b, hge, hor, hle⟩ := hb.step_rise (dirs (m + 1))
    -- whichever floor the rise is measured from has lifted the player in some frame
    have hlifted : b = 4 ∨ ∃ j ≤ m + 1,
        (trace Game.frame g dirs j).player.Lifts (trace Game.frame g dirs j).floors b := by
      rcases hor with rfl | hlifts
      · rcases hpasts with rfl | ⟨j, hj', hlifts⟩
        · exact .inl rfl
        · exact .inr ⟨j, Nat.le_succ_of_le hj', hlifts⟩
      · exact .inr ⟨m + 1, Nat.le_refl _, hlifts⟩
    rcases eq_of_jumpFloor hge with rfl | rfl
    · -- floor 5 is never more than 70 below floor 4
      have hinv := (h.trace dirs (m + 2)).inv
      have h5 : (trace Game.frame g dirs (m + 2)).rise 4 ≤ 154 := by
        have hle3 : (trace Game.frame g dirs (m + 2)).rise 3 ≤ 84 := hle
        rcases hinv.rise_floor5 with h5 | h5 <;> omega
      rcases hlifted with heq | hlifts
      · exact absurd heq (by decide)
      · exact .inr ⟨rfl, hle, h5, hlifts⟩
    · exact .inl hle

/-- Without keys the player touches floor 4 in frame 77; the bounce ends 17 frames later, 83
    above it. -/
theorem bounce_bounded_floor4 :
    (trace Game.frame (gameAt (fun _ => 0) 77) (fun _ => 0) 17).rise 3 ≤ 84 := by
  rcases bounce_bounded (gameAt_reachable (fun _ => 0) 77) (i := 3) (by decide) (by decide +kernel)
    (by decide +kernel) (by decide +kernel) (by decide +kernel) (fun _ => 0) 16
    (by decide +kernel) with hle | ⟨heq, -⟩
  · exact hle
  · exact absurd heq (by decide)

/-- Keys that bounce the player from floor 5 into the zone of floor 4: down past floor 4 on the
    left, then right. -/
def relayKeys (k : ℕ) : BitVec 2 := if k < 54 then 0 else if k < 74 then dirLeft else dirRight

/-- With these keys the player touches floor 5 in frame 100, and 18 frames later the same bounce
    has carried it 87 above floor 5. -/
theorem bounce_relayed :
    floorArm (gameAt relayKeys 100).player (gameAt relayKeys 100).floors = some 4 ∧
    (gameAt relayKeys 100).player.jumpState = false ∧
    36 ≤ (gameAt relayKeys 100).player.yPos ∧ (gameAt relayKeys 100).player.yPos ≤ 428 ∧
    (∀ j < 17, ¬ (gameAt relayKeys (100 + (j + 1))).player.BounceOver) ∧
    (gameAt relayKeys 118).rise 4 = 87 := by
  decide +kernel

end NsShaft
