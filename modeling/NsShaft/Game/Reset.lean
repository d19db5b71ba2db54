import NsShaft.Game.Frame
import NsShaft.Game.Contact

namespace NsShaft

open Hdl

/-!
# What `KEY[1]` reset erases

A reset press holds `Reset` over at least two `Clk` edges.  The first puts the player at its
start place; the second clears `is_spiked`, whose next value is computed from the place before
it.  `jump_state` is written only in the frame branch, so no number of reset edges clears it.

* `ResetPress.apply_game` — what a press leaves: the start positions with the old `jump_state`.
* `reset_forgets_iff` — two games go on alike after a press, for all later inputs, if and only
  if they had the same `jump_state` and the last reset edges sampled the same frame clock and,
  where that leaves a frame edge possible at once, the same move.
-/

/-! ### Reset presses -/

/-- The `Clk` edges of one press of `KEY[1]`: at least two, all with `Reset` high. -/
structure ResetPress where
  edges : List BallIn
  held : ∀ i ∈ edges, i.reset = true
  long : 2 ≤ edges.length

/-- The registers after a press. -/
def ResetPress.apply (press : ResetPress) (r : GameRegs) : GameRegs :=
  press.edges.foldl GameRegs.step r

theorem ResetPress.edges_ne_nil (press : ResetPress) : press.edges ≠ [] := by
  intro h
  have hlong := press.long
  simp [h] at hlong

/-- The inputs of the last edge of a press. -/
def ResetPress.last (press : ResetPress) : BallIn := press.edges.getLast press.edges_ne_nil

/-- The game a press leaves behind: the start positions, and the `jump_state` of before. -/
def resetGame (jumpState : Bool) : Game :=
  { Game.start with player := { Game.start.player with jumpState := jumpState } }

theorem step_reset_player {r : GameRegs} {i : BallIn} (hi : i.reset = true) :
    (r.step i).ball.player = r.ball.player.reset (yBoundary r.ball.player).2 := by
  rw [GameRegs.step_player, if_pos hi]
  rfl

/-- No reset edge touches `jump_state`. -/
theorem foldl_reset_jumpState (edges : List BallIn) (hheld : ∀ i ∈ edges, i.reset = true)
    (r : GameRegs) :
    (edges.foldl GameRegs.step r).ball.player.jumpState = r.ball.player.jumpState := by
  induction edges generalizing r with
  | nil => rfl
  | cons i rest ih =>
    rw [List.foldl_cons, ih (fun j hj => hheld j (List.mem_cons_of_mem i hj)),
      step_reset_player (hheld i List.mem_cons_self)]
    rfl

/-- At the start place the spike flag is cleared: `y = 100` is past the drop. -/
theorem yBoundary_center {p : Player} (hy : p.yPos = playerYCenter) : (yBoundary p).2 = false := by
  obtain ⟨x, y, mx, my, j, s⟩ := p
  cases s <;> simp_all [yBoundary, playerYCenter, playerYSize, playerYMax, spikeHeight, dropHeight]

/-- **Press lemma.** After a press the positions are the start positions, with the `jump_state`
    of before, and the samplers hold what the last edge sampled. -/
theorem ResetPress.apply_spec (press : ResetPress) (r : GameRegs) :
    (press.apply r).game = resetGame r.ball.player.jumpState ∧
      (press.apply r).ball.frameClkDelayed = press.last.frameClk ∧
      (press.apply r).floor.frameClkDelayed = press.last.frameClk ∧
      (press.apply r).ball.direction = keyDirection press.last.key := by
  -- split off the last two edges: the first of them centres, the second clears the spike flag
  obtain ⟨before, i, hbefore⟩ : ∃ before i, press.edges = before ++ [i] :=
    ⟨_, _, (List.dropLast_append_getLast press.edges_ne_nil).symm⟩
  have hlast : press.last = i := by
    simp only [ResetPress.last, hbefore, List.getLast_append_singleton]
  have hne : before ≠ [] := by
    rintro rfl
    have hlong := press.long
    simp [hbefore] at hlong
  obtain ⟨first, j, hfirst⟩ : ∃ first j, before = first ++ [j] :=
    ⟨_, _, (List.dropLast_append_getLast hne).symm⟩
  have hi : i.reset = true := press.held i (by simp [hbefore])
  have hj : j.reset = true := press.held j (by simp [hbefore, hfirst])
  have happly : press.apply r = ((first.foldl GameRegs.step r).step j).step i := by
    simp [ResetPress.apply, hbefore, hfirst]
  have hjump : ((first.foldl GameRegs.step r)).ball.player.jumpState = r.ball.player.jumpState :=
    foldl_reset_jumpState first (fun k hk => press.held k (by simp [hbefore, hfirst, hk])) r
  rw [happly, hlast]
  refine ⟨?_, GameRegs.step_ball_frameClkDelayed _ _, rfl, GameRegs.step_ball_direction _ _⟩
  have hcenter : ((first.foldl GameRegs.step r).step j).ball.player.yPos = playerYCenter := by
    rw [step_reset_player hj]
    rfl
  unfold GameRegs.game
  rw [step_reset_player hi, yBoundary_center hcenter, GameRegs.step_floors, if_pos hi,
    step_reset_player hj, ← hjump]
  rfl

/-! ### Two games on the same inputs -/

/-- The two key samples ask for the same move: both left, both right, or both neither. -/
def SameMove (d e : BitVec 2) : Prop := (d = dirLeft ↔ e = dirLeft) ∧ (d = dirRight ↔ e = dirRight)

instance (d e : BitVec 2) : Decidable (SameMove d e) := inferInstanceAs (Decidable (_ ∧ _))

/-- A frame looks at the keys only for the move they ask for. -/
theorem Player.frame_sameMove {d e : BitVec 2} (h : SameMove d e) (p : Player) (f : Floors) :
    p.frame d f = p.frame e f := by
  have hguard : xGuard p d = xGuard p e := by
    unfold xGuard
    simp only [ne_eq, h.1, h.2]
  have hkey : ∀ b, keyMotion d b = keyMotion e b := by
    intro b
    unfold keyMotion
    simp only [h.1, h.2]
  unfold Player.frame settled alwaysComb
  simp only [hguard, hkey]

/-- The relation that later inputs preserve: equal positions, equal edge detectors, and the
    same move sampled wherever the next `Clk` edge can be a frame edge. -/
structure Indistinct (a b : GameRegs) : Prop where
  game : a.game = b.game
  ball : a.ball.frameClkDelayed = b.ball.frameClkDelayed
  floor : a.floor.frameClkDelayed = b.floor.frameClkDelayed
  move : a.ball.frameClkDelayed = false → SameMove a.ball.direction b.ball.direction

/-- **Step lemma.** The relation is preserved by every common input. -/
theorem Indistinct.step {a b : GameRegs} (h : Indistinct a b) (i : BallIn) :
    Indistinct (a.step i) (b.step i) where
  game := by
    have hp : a.ball.player = b.ball.player := congrArg Game.player h.game
    have hf : a.floor.pos = b.floor.pos := congrArg Game.floors h.game
    unfold GameRegs.game
    rw [GameRegs.step_player, GameRegs.step_player, GameRegs.step_floors, GameRegs.step_floors,
      hp, hf, ← h.ball, ← h.floor]
    by_cases hedge : frameClkRisingEdge i.frameClk a.ball.frameClkDelayed = true
    · -- a frame edge comes after a low sample, so both have sampled the same move
      have hlow := ((frameClkRisingEdge_eq_true _ _).mp hedge).2
      rw [Player.frame_sameMove (h.move hlow)]
      rfl
    · simp only [if_neg hedge]
      rfl
  ball := by rw [GameRegs.step_ball_frameClkDelayed, GameRegs.step_ball_frameClkDelayed]
  floor := rfl
  move := by
    intro _
    rw [GameRegs.step_ball_direction, GameRegs.step_ball_direction]
    exact ⟨Iff.rfl, Iff.rfl⟩

/-- Indistinct registers hold the same positions after any common inputs. -/
theorem Indistinct.game_eq {a b : GameRegs} (h : Indistinct a b) (ins : ℕ → BallIn) (n : ℕ) :
    (trace GameRegs.step a ins n).game = (trace GameRegs.step b ins n).game :=
  (trace_related h (fun _ _ i hR => Indistinct.step hR i) ins n).game

/-! ### Telling two games apart -/

/-- The probe: the frame clock goes high at once, with no key and no reset. -/
def frameProbe : BallIn := ⟨false, true, 0b1111, 0, 0⟩

/-- From the start positions a frame moves the floors. -/
theorem start_frame_ne : Floors.start.frame ≠ Floors.start := by decide +kernel

/-- From the start positions a frame registers a motion that tells the moves apart. -/
theorem resetGame_frame_xMotion : ∀ (j : Bool) (d e : BitVec 2),
    ((resetGame j).frame d).player.xMotion = ((resetGame j).frame e).player.xMotion →
      SameMove d e := by decide +kernel

/-- The positions one probe after a press. -/
theorem probe_game {r : GameRegs} {jump : Bool} (low : Bool) (hgame : r.game = resetGame jump)
    (hball : r.ball.frameClkDelayed = !low) (hfloor : r.floor.frameClkDelayed = !low) :
    (r.step frameProbe).game =
      if low then (resetGame jump).frame r.ball.direction else resetGame jump := by
  rw [GameRegs.step_game r frameProbe rfl (hfloor.trans hball.symm), hgame]
  unfold GameRegs.frameTick
  rw [hball]
  cases low <;> rfl

/-! ### The exact condition -/

/-- **Reset forgets, up to `jump_state`.**  For arbitrary earlier register contents and any two
    presses, the games coincide for all later inputs and at all later edges if and only if
    `jump_state` was the same before the presses and their last edges sampled the same frame
    clock and, if that was low, the same move. -/
theorem reset_forgets_iff (a b : GameRegs) (p q : ResetPress) :
    (∀ (ins : ℕ → BallIn) (n : ℕ), (trace GameRegs.step (p.apply a) ins n).game
        = (trace GameRegs.step (q.apply b) ins n).game) ↔
      a.ball.player.jumpState = b.ball.player.jumpState ∧ p.last.frameClk = q.last.frameClk ∧
        (p.last.frameClk = false → SameMove (keyDirection p.last.key) (keyDirection q.last.key)) := by
  obtain ⟨hga, hba, hfa, hda⟩ := p.apply_spec a
  obtain ⟨hgb, hbb, hfb, hdb⟩ := q.apply_spec b
  constructor
  · intro hsame
    -- `jump_state` shows at once; the detector and the sampled move show after one probe
    have hjump : a.ball.player.jumpState = b.ball.player.jumpState := by
      have h0 := hsame (fun _ => frameProbe) 0
      rw [trace_zero, trace_zero, hga, hgb] at h0
      exact congrArg (fun g => g.player.jumpState) h0
    have h1 := hsame (fun _ => frameProbe) 1
    rw [trace_succ, trace_zero, trace_succ, trace_zero,
      probe_game (!p.last.frameClk) hga (by simp [hba]) (by simp [hfa]),
      probe_game (!q.last.frameClk) hgb (by simp [hbb]) (by simp [hfb]), hjump, hda, hdb] at h1
    refine ⟨hjump, ?_, ?_⟩
    · -- a frame edge in one game only would move the floors of that game only
      cases hp : p.last.frameClk <;> cases hq : q.last.frameClk
      · rfl
      · rw [hp, hq] at h1
        exact absurd (congrArg Game.floors h1) start_frame_ne
      · rw [hp, hq] at h1
        exact absurd (congrArg Game.floors h1).symm start_frame_ne
      · rfl
    · intro hp
      -- both games play a frame, each with the move its last reset edge sampled
      cases hq : q.last.frameClk
      · rw [hp, hq] at h1
        exact resetGame_frame_xMotion _ _ _ (congrArg (fun g => g.player.xMotion) h1)
      · rw [hp, hq] at h1
        exact absurd (congrArg Game.floors h1) start_frame_ne
  · rintro ⟨hjump, hclk, hmove⟩ ins n
    refine Indistinct.game_eq ⟨?_, ?_, ?_, ?_⟩ ins n
    · rw [hga, hgb, hjump]
    · rw [hba, hbb, hclk]
    · rw [hfa, hfb, hclk]
    · rw [hba, hda, hdb]
      exact hmove

/-! ### A leftover bounce -/

/-- A `Clk` stream with a frame edge every second edge: right held for ten frames, then no key. -/
def bounceIns (k : ℕ) : BallIn := ⟨false, k % 2 == 1, if k < 20 then 0b1011 else 0b1111, 0, 0⟩

/-- The registers 70 frames later, with the player touching jump floor 4. -/
def GameRegs.bouncing : GameRegs := trace GameRegs.step GameRegs.start bounceIns 140

/-- Two reset edges with the frame clock low and no direction key held. -/
def quietPress : ResetPress where
  edges := [⟨true, false, 0b1101, 0, 0⟩, ⟨true, false, 0b1101, 0, 0⟩]
  held := by decide
  long := by decide

/-- A game reset during a bounce rises in its second frame, where a game reset on the spot
    falls: the same press and the same inputs lead to different heights. -/
theorem bounce_survives_reset :
    GameRegs.bouncing.ball.player.jumpState = true ∧
    (trace GameRegs.step (quietPress.apply GameRegs.bouncing) bounceIns 4).game.player.yPos = 96 ∧
    (trace GameRegs.step (quietPress.apply GameRegs.start) bounceIns 4).game.player.yPos = 102 := by
  decide +kernel

end NsShaft
