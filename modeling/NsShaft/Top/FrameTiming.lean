import NsShaft.Top.Lab8

namespace NsShaft

open Hdl

/-!
# One game update per video frame

In a run after a video reset, the frame edges of `ball` and `floor` follow `VGA_VS` by one
`Clk` cycle.  `VGA_VS` is registered in the controller, which steps every second `Clk` edge, so
its rising edges have a closed form, and with it the frame edges.

* `lab8Run_delayed` — both edge detectors hold the `VGA_VS` of the cycle before.
* `ballEdge_iff` — the frame edges are in cycle 1, where `VGA_VS` leaves its reset value, and in
  the cycles `787199 + 840000 m`.
* `lab8Run_game` — a frame edge plays one frame, and any other edge leaves the positions.
* `frame_lockstep` — the whole statement.
-/

variable (roms : Roms) (s : Lab8) (moves : ℕ → BitVec 2)

/-! ### The edge detectors -/

/-- Both detectors hold the `VGA_VS` of the cycle before. -/
theorem lab8Run_delayed (n : ℕ) :
    (lab8Run roms s moves (n + 1)).game.ball.frameClkDelayed = (vgaAfter n).vgaVs ∧
      (lab8Run roms s moves (n + 1)).game.floor.frameClkDelayed = (vgaAfter n).vgaVs := by
  have hvs : (lab8Run roms s moves n).video.vga.vgaVs = (vgaAfter n).vgaVs := by
    rw [lab8Run_video]
    rfl
  rw [← hvs]
  exact ⟨GameRegs.step_ball_frameClkDelayed _ _, rfl⟩

/-- `ball` and `floor` see the same frame edges: in cycle 0 none, `VGA_VS` being low, and later
    those of the same delayed signal. -/
theorem ballEdge_eq_floorEdge (n : ℕ) :
    (lab8Run roms s moves n).ballEdge = (lab8Run roms s moves n).floorEdge := by
  cases n with
  | zero => rfl
  | succ n =>
    obtain ⟨hb, hf⟩ := lab8Run_delayed roms s moves n
    unfold Lab8.ballEdge Lab8.floorEdge
    rw [hb, hf]

/-- A frame edge is a rise of `VGA_VS` between two successive cycles. -/
theorem ballEdge_succ (n : ℕ) :
    (lab8Run roms s moves (n + 1)).ballEdge = true ↔
      (vgaAfter (n + 1)).vgaVs = true ∧ (vgaAfter n).vgaVs = false := by
  unfold Lab8.ballEdge
  rw [frameClkRisingEdge_eq_true, (lab8Run_delayed roms s moves n).1, lab8Run_video]
  rfl

/-! ### Closed form of the frame edges -/

theorem vgaAfter_vgaVs {n : ℕ} (hn : 0 < n) :
    (vgaAfter n).vgaVs = false ↔
      490 ≤ (n + 1) / 2 / 800 % 525 ∧ (n + 1) / 2 / 800 % 525 < 492 := by
  unfold vgaAfter
  rw [if_neg (by omega)]
  exact vgaAt_vgaVs _

theorem vgaAfter_vgaBlankN {n : ℕ} (hn : 0 < n) :
    (vgaAfter n).vgaBlankN = true ↔
      (n + 1) / 2 % 800 < 640 ∧ (n + 1) / 2 / 800 % 525 < 480 := by
  unfold vgaAfter
  rw [if_neg (by omega)]
  exact vgaAt_vgaBlankN _

/-- A pixel count enters line 492 exactly at the end of line 491. -/
theorem line_leaves_sync (j : ℕ) :
    (490 ≤ j / 800 % 525 ∧ j / 800 % 525 < 492) ∧
        ¬ (490 ≤ (j + 1) / 800 % 525 ∧ (j + 1) / 800 % 525 < 492) ↔
      j % 420000 = 393599 := by
  omega

/-- **Frame edges.** They are in cycle 1 and in the cycles `787199 + 840000 m`. -/
theorem ballEdge_iff (n : ℕ) :
    (lab8Run roms s moves n).ballEdge = true ↔ n = 1 ∨ n % 840000 = 787199 := by
  rcases n with _ | _ | n
  · exact iff_of_false Bool.false_ne_true (by decide)
  · -- cycle 1: `VGA_VS` leaves its reset value
    rw [ballEdge_succ]
    exact iff_of_true (by decide) (.inl rfl)
  · rw [ballEdge_succ, ← Bool.not_eq_false, vgaAfter_vgaVs (by omega), vgaAfter_vgaVs (by omega)]
    rcases Nat.mod_two_eq_zero_or_one n with hpar | hpar
    · -- the controller was not clocked between the two cycles
      rw [show (n + 1 + 1 + 1) / 2 = (n + 1 + 1) / 2 by omega]
      exact iff_of_false (fun h => h.1 h.2) (by omega)
    -- the controller was clocked, and its pixel count moved on by one
    · have hj : (n + 1 + 1 + 1) / 2 = (n + 1 + 1) / 2 + 1 := by omega
      rw [hj, and_comm, line_leaves_sync]
      omega

/-- Frame edges after the first fall in blanking. -/
theorem blank_of_ballEdge {n : ℕ} (hn : 1 < n) (hedge : (lab8Run roms s moves n).ballEdge = true) :
    (lab8Run roms s moves n).video.vga.vgaBlankN = false := by
  have hphase : n % 840000 = 787199 := by
    rcases (ballEdge_iff roms s moves n).mp hedge with h | h
    · omega
    · exact h
  rw [lab8Run_video, ← Bool.not_eq_true]
  show ¬ (vgaAfter n).vgaBlankN = true
  rw [vgaAfter_vgaBlankN (by omega)]
  omega

/-! ### What a frame edge does -/

theorem lab8Run_gameIn_reset (n : ℕ) :
    ((lab8Run roms s moves n).gameIn (playKey (moves n))).reset = false := by
  show (!(playKey (moves n)).getLsbD 1) = false
  rw [playKey_key1]
  rfl

/-- The player's registers and the floors' after the next edge, from the detectors of both. -/
theorem lab8Run_game (n : ℕ) :
    (lab8Run roms s moves (n + 1)).game.game =
      if (lab8Run roms s moves n).ballEdge then
        (lab8Run roms s moves n).game.game.frame (lab8Run roms s moves n).game.ball.direction
      else (lab8Run roms s moves n).game.game := by
  have hreset := lab8Run_gameIn_reset roms s moves n
  have hplayer := (lab8Run roms s moves n).game.step_player
    ((lab8Run roms s moves n).gameIn (playKey (moves n)))
  have hfloors := (lab8Run roms s moves n).game.step_floors
    ((lab8Run roms s moves n).gameIn (playKey (moves n)))
  have hfloorEdge := ballEdge_eq_floorEdge roms s moves n
  -- without `KEY[1]` neither module takes its reset branch
  rw [hreset] at hplayer hfloors
  change _ = if (lab8Run roms s moves n).ballEdge = true then _ else _ at hplayer
  change _ = if (lab8Run roms s moves n).floorEdge = true then _ else _ at hfloors
  -- one edge for both, so the game plays a frame or rests as a whole
  rw [← hfloorEdge] at hfloors
  rw [lab8Run_succ]
  show Game.mk ((lab8Run roms s moves n).game.step _).ball.player
    ((lab8Run roms s moves n).game.step _).floor.pos = _
  rw [hplayer, hfloors]
  cases (lab8Run roms s moves n).ballEdge <;> rfl

/-- An edge without a frame edge leaves all positions alone. -/
theorem lab8Run_game_of_no_edge {n : ℕ} (h : (lab8Run roms s moves n).ballEdge = false) :
    (lab8Run roms s moves (n + 1)).game.game = (lab8Run roms s moves n).game.game := by
  rw [lab8Run_game, h]
  rfl

/-- No position moves at the end of a visible cycle, the two first ones apart. -/
theorem lab8Run_game_of_visible {n : ℕ} (hn : 1 < n)
    (hvis : (lab8Run roms s moves n).video.vga.vgaBlankN = true) :
    (lab8Run roms s moves (n + 1)).game.game = (lab8Run roms s moves n).game.game := by
  refine lab8Run_game_of_no_edge roms s moves ?_
  rw [← Bool.not_eq_true]
  intro hedge
  rw [blank_of_ballEdge roms s moves hn hedge] at hvis
  exact Bool.false_ne_true hvis

/-! ### The whole statement -/

/-- **Lock-step.**  In every run after a video reset without reset keys: `ball` and `floor` see
    the same frame edges; after the one in cycle 1, each frame edge is followed by the next one
    after exactly 840000 cycles, the first being in cycle 787199, and each is in blanking; a
    frame edge plays exactly one frame, `ball` reading the floors from before it, and between
    them, in particular at the end of every visible cycle, no position changes. -/
theorem frame_lockstep :
    (∀ n, (lab8Run roms s moves n).ballEdge = (lab8Run roms s moves n).floorEdge) ∧
    (∀ n, (lab8Run roms s moves n).ballEdge = true → n ≠ 1 →
      (lab8Run roms s moves n).video.vga.vgaBlankN = false ∧
      (lab8Run roms s moves (n + 840000)).ballEdge = true ∧
      ∀ m, n < m → m < n + 840000 → (lab8Run roms s moves m).ballEdge = false) ∧
    ((lab8Run roms s moves 787199).ballEdge = true ∧
      ∀ n < 787199, n ≠ 1 → (lab8Run roms s moves n).ballEdge = false) ∧
    (∀ n, (lab8Run roms s moves (n + 1)).game.game =
      if (lab8Run roms s moves n).ballEdge then
        (lab8Run roms s moves n).game.game.frame (lab8Run roms s moves n).game.ball.direction
      else (lab8Run roms s moves n).game.game) ∧
    (∀ n, (lab8Run roms s moves n).video.vga.vgaBlankN = true → n ≠ 1 →
      (lab8Run roms s moves (n + 1)).game.game = (lab8Run roms s moves n).game.game) := by
  have hnot : ∀ n, ¬ (n = 1 ∨ n % 840000 = 787199) → (lab8Run roms s moves n).ballEdge = false := by
    intro n h
    rw [← Bool.not_eq_true, ballEdge_iff]
    exact h
  refine ⟨ballEdge_eq_floorEdge roms s moves, ?_, ⟨?_, ?_⟩, lab8Run_game roms s moves, ?_⟩
  · intro n hedge hn
    have hphase : n % 840000 = 787199 :=
      ((ballEdge_iff roms s moves n).mp hedge).resolve_left hn
    refine ⟨blank_of_ballEdge roms s moves (by omega) hedge, ?_, ?_⟩
    · rw [ballEdge_iff]
      omega
    · intro m hlo hhi
      exact hnot m (by omega)
  · rw [ballEdge_iff]
    omega
  · intro n hlt hn
    exact hnot n (by omega)
  · intro n hvis hn
    rcases n with _ | n
    · exact lab8Run_game_of_no_edge roms s moves rfl
    · exact lab8Run_game_of_visible roms s moves (by omega) hvis

end NsShaft
