import NsShaft.Hdl.Counter
import NsShaft.Top.Pipeline
import NsShaft.Video.Timing

namespace NsShaft

open Hdl

/-!
# The screen shows the game

From a video reset on, and while neither reset key is pressed again, the board plays the frame
machine `Game.frame` and shows it: the pictures are a function of the state at the reset and of the
keys in one cycle a frame.  The first two pixels after the reset are left out; in the second one
`VGA_VS` leaves its reset value, which starts a frame.

* `framesPlayed`, `sampleCycle` — how many frames have been played before a cycle, and in which
  cycle the move of a frame is sampled.
* `lab8Run_frames` — the positions in every cycle are those of the frame machine.
* `screen_shows_game` — the colour of every pixel of every video frame, in closed form.
* `screen_ignores_other_keys` — what the keys do in any other cycle never shows.
-/

variable (roms : Roms) (s : Lab8) (moves : ℕ → BitVec 2)

/-! ### The frames of a run -/

/-- The frames played before cycle `n`. -/
def framesPlayed (n : ℕ) : ℕ := if n < 2 then 0 else (n + 52800) / 840000 + 1

/-- The cycle in which the keys are sampled for a frame: the one before its edge. -/
def sampleCycle : ℕ → ℕ
  | 0 => 0
  | j + 1 => 787198 + 840000 * j

/-- The direction that a frame is played with. -/
def playedMove (j : ℕ) : BitVec 2 := keyDirection (playKey (moves (sampleCycle j)))

/-- The game after `m` frames of a run. -/
def Lab8.gameAfter (m : ℕ) : Game := trace Game.frame s.game.game (playedMove moves) m

theorem framesPlayed_edge {n : ℕ} (h : n = 1 ∨ n % 840000 = 787199) :
    framesPlayed (n + 1) = framesPlayed n + 1 ∧ n = sampleCycle (framesPlayed n) + 1 := by
  rcases h with rfl | h
  · decide
  · obtain ⟨m, rfl⟩ : ∃ m, n = 787199 + 840000 * m := ⟨n / 840000, by omega⟩
    -- the edge in cycle 1 and the `m` edges of the video frames before
    have hplayed : framesPlayed (787199 + 840000 * m) = m + 1 := by
      rw [framesPlayed, if_neg (by omega)]
      omega
    rw [hplayed, sampleCycle, framesPlayed, if_neg (by omega)]
    omega

theorem framesPlayed_rest {n : ℕ} (h : ¬ (n = 1 ∨ n % 840000 = 787199)) :
    framesPlayed (n + 1) = framesPlayed n := by
  obtain ⟨hfirst, hphase⟩ := not_or.mp h
  unfold framesPlayed
  by_cases hn : n < 2
  · rw [if_pos hn, if_pos (by omega)]
  · -- the quotient moves on at the frame edges only
    have hwrap : ¬ (n + 52800) % 840000 + 1 = 840000 := by omega
    have hdiv := succ_div_eq (h := 840000) (by decide) (n + 52800)
    rw [if_neg hwrap] at hdiv
    rw [if_neg hn, if_neg (by omega), Nat.add_right_comm, hdiv]

/-- The direction register holds the keys of the cycle before. -/
theorem lab8Run_direction (n : ℕ) :
    (lab8Run roms s moves (n + 1)).game.ball.direction = keyDirection (playKey (moves n)) :=
  GameRegs.step_ball_direction _ _

/-- **Frames.** In every cycle the registers hold the game after the frames played so far. -/
theorem lab8Run_frames (n : ℕ) :
    (lab8Run roms s moves n).game.game = s.gameAfter moves (framesPlayed n) := by
  induction n with
  | zero => rfl
  | succ n ih =>
    rw [lab8Run_game]
    by_cases hedge : (lab8Run roms s moves n).ballEdge = true
    · obtain ⟨hplayed, hcycle⟩ := framesPlayed_edge ((ballEdge_iff roms s moves n).mp hedge)
      -- the frame reads the direction register, one cycle behind the keys
      have hdirection : (lab8Run roms s moves n).game.ball.direction
          = playedMove moves (framesPlayed n) := by
        rw [hcycle, lab8Run_direction, ← hcycle]
        rfl
      rw [if_pos hedge, hplayed, ih, hdirection]
      rfl
    · rw [if_neg hedge, framesPlayed_rest (mt (ballEdge_iff roms s moves n).mpr hedge), ih]

/-- The score counter is never reset. -/
theorem lab8Run_curScore (n : ℕ) :
    (lab8Run roms s moves n).curScore = s.curScore + BitVec.ofNat 51 n := by
  induction n with
  | zero => simp [lab8Run]
  | succ n ih =>
    have hnext : (lab8Run roms s moves (n + 1)).curScore
        = scoreKeeperNext (lab8Run roms s moves n).curScore (!(playKey (moves n)).getLsbD 1) := rfl
    rw [hnext, playKey_key1, ih, BitVec.ofNat_add, ← BitVec.add_assoc]
    rfl

/-! ### The pixels of a video frame -/

/-- The number of a pixel since the reset: `(x, y)` in video frame `m`. -/
def pixelNo (m x y : ℕ) : ℕ := 420000 * m + 800 * y + x

/-- The score digits in the cycle that clocks the ROMs for a pixel. -/
def Lab8.scoresAt (k : ℕ) : Scores := scoreDigits (s.curScore + BitVec.ofNat 51 (2 * k - 1))

/-- The second cycle of pixel number `k`, with `VGA_CLK` low. -/
theorem lab8Run_pixelCycle {k : ℕ} (hk : 1 ≤ k) :
    (lab8Run roms s moves (2 * k)).video = ⟨false, false, vgaAt k⟩ := by
  have hhalf : (2 * k + 1) / 2 = k := by omega
  rw [lab8Run_video, videoAt, vgaAfter, if_neg (by omega), hhalf]
  simp

/-- **One pixel.** In its second cycle a visible pixel has the ideal colour for the game and the
    score of its first one. -/
theorem lab8Run_colour {k : ℕ} (hk : 2 ≤ k) (hvis : (vgaAt k).vgaBlankN = true) :
    (lab8Run roms s moves (2 * k)).vgaRgb
      = idealColour roms (s.gameAfter moves (framesPlayed (2 * k))).player
          (s.gameAfter moves (framesPlayed (2 * k))).floors (s.scoresAt k)
          (vgaAt k).hCounter (vgaAt k).vCounter := by
  obtain ⟨n, hn⟩ : ∃ n, 2 * k = n + 1 := ⟨2 * k - 1, by omega⟩
  have hvideo : (lab8Run roms s moves (2 * k)).video.vga = (vgaAt k) := by
    rw [lab8Run_pixelCycle roms s moves (by omega)]
  have hbefore : (lab8Run roms s moves n).video.vga = (vgaAt k) := by
    rw [← hvideo, hn, lab8Run_video, lab8Run_video]
    exact vgaAfter_hold n (by omega)
  -- the ROMs were clocked with the addresses of this pixel, for the positions of this cycle
  have hstill := lab8Run_game_of_visible roms s moves (n := n) (by omega) (by rw [hbefore]; exact hvis)
  have hnow := lab8Run_frames roms s moves (2 * k)
  have hthen : (lab8Run roms s moves n).game.game = s.gameAfter moves (framesPlayed (2 * k)) := by
    rw [← hnow, hn, hstill]
  have hplayer : (lab8Run roms s moves n).game.ball.player
      = (s.gameAfter moves (framesPlayed (2 * k))).player := congrArg Game.player hthen
  have hfloors : (lab8Run roms s moves n).game.floor.pos
      = (s.gameAfter moves (framesPlayed (2 * k))).floors := congrArg Game.floors hthen
  have hplayer' : (lab8Run roms s moves (2 * k)).game.ball.player
      = (s.gameAfter moves (framesPlayed (2 * k))).player := congrArg Game.player hnow
  have hfloors' : (lab8Run roms s moves (2 * k)).game.floor.pos
      = (s.gameAfter moves (framesPlayed (2 * k))).floors := congrArg Game.floors hnow
  have hscores : s.scoresAt k = scoreDigits (lab8Run roms s moves n).curScore := by
    rw [lab8Run_curScore, Lab8.scoresAt, hn, Nat.add_sub_cancel]
  have hwords : (lab8Run roms s moves (2 * k)).standDataOut
        = standWord roms (lab8Run roms s moves n).player.standReadAddress ∧
      (lab8Run roms s moves (2 * k)).floorDataOut
        = floorBuf roms (lab8Run roms s moves n).floor.isFloor
            (lab8Run roms s moves n).floor.floorReadAddress ∧
      (lab8Run roms s moves (2 * k)).charDataOut
        = charWord roms (lab8Run roms s moves n).char.charIdx
            (lab8Run roms s moves n).char.charReadAddress := by
    rw [hn]
    exact ⟨rfl, rfl, rfl⟩
  unfold Lab8.vgaRgb idealColour
  rw [hwords.1, hwords.2.1, hwords.2.2, hscores]
  unfold Lab8.player Lab8.floor Lab8.char Lab8.drawX Lab8.drawY
  rw [hvideo, hbefore, hplayer, hfloors, hplayer', hfloors', scoreboard_isChar]

/-- All pixels of video frame `m` are shown while `m + 1` frames have been played. -/
theorem framesPlayed_pixel {m x y : ℕ} (hx : x < 640) (hy : y < 480) (hk : 1 ≤ pixelNo m x y) :
    framesPlayed (2 * pixelNo m x y) = m + 1 := by
  unfold framesPlayed pixelNo at *
  rw [if_neg (by omega)]
  omega

theorem vgaAt_pixelNo {m x y : ℕ} (hx : x < 640) (hy : y < 480) :
    (vgaAt (pixelNo m x y)).shows x y := by
  rw [vgaAt_shows_iff hx hy]
  unfold pixelNo
  omega

/-! ### The whole screen -/

/-- The colour that the board presents for pixel `(x, y)` of video frame `m`. -/
theorem lab8Run_screen {m x y : ℕ} (hx : x < 640) (hy : y < 480) (hk : 2 ≤ pixelNo m x y) :
    (lab8Run roms s moves (2 * pixelNo m x y)).vgaRgb
      = idealColour roms (s.gameAfter moves (m + 1)).player (s.gameAfter moves (m + 1)).floors
          (s.scoresAt (pixelNo m x y)) (BitVec.ofNat 10 x) (BitVec.ofNat 10 y) := by
  have hshows := vgaAt_pixelNo (m := m) hx hy
  have hx' : (vgaAt (pixelNo m x y)).hCounter = BitVec.ofNat 10 x := by
    refine BitVec.eq_of_toNat_eq ?_
    rw [hshows.1, BitVec.toNat_ofNat, Nat.mod_eq_of_lt (by omega)]
  have hy' : (vgaAt (pixelNo m x y)).vCounter = BitVec.ofNat 10 y := by
    refine BitVec.eq_of_toNat_eq ?_
    rw [hshows.2.1, BitVec.toNat_ofNat, Nat.mod_eq_of_lt (by omega)]
  rw [lab8Run_colour roms s moves hk hshows.2.2, framesPlayed_pixel hx hy (by omega), hx', hy']

/-- **The screen shows the game.** After a video reset, from every state of the other registers and
    for all samples of `KEY[3:2]`, with `KEY[1:0]` up: in the cycle in which the board presents
    pixel `(x, y)` of video frame `m`, `VGA_CLK` is low, the pixel is unblanked, and its colour is
    that of the game after exactly `m + 1` frames, the first two pixels after the reset apart. -/
theorem screen_shows_game {m x y : ℕ} (hx : x < 640) (hy : y < 480) (hk : 2 ≤ pixelNo m x y) :
    (lab8Run roms s moves (2 * pixelNo m x y)).video.vgaClk = false ∧
    (lab8Run roms s moves (2 * pixelNo m x y)).video.vga.shows x y ∧
    (lab8Run roms s moves (2 * pixelNo m x y)).vgaRgb
      = idealColour roms (s.gameAfter moves (m + 1)).player (s.gameAfter moves (m + 1)).floors
          (s.scoresAt (pixelNo m x y)) (BitVec.ofNat 10 x) (BitVec.ofNat 10 y) := by
  refine ⟨?_, ?_, lab8Run_screen roms s moves hx hy hk⟩
  · rw [lab8Run_pixelCycle roms s moves (by omega)]
  · rw [lab8Run_pixelCycle roms s moves (by omega)]
    exact vgaAt_pixelNo hx hy

/-- A pixel of the player in the second video frame, after two frames: the yellow of word 20. -/
theorem screen_shows_second_frame :
    (lab8Run (plainRoms 20) Lab8.start (fun _ => 0b11) (2 * pixelNo 1 165 110)).vgaRgb
      = some ⟨0xF9, 0xFF, 0x00⟩ :=
  (screen_shows_game (plainRoms 20) Lab8.start (fun _ => 0b11) (m := 1) (x := 165) (y := 110)
    (by decide) (by decide) (by decide)).2.2.trans (by decide +kernel)

/-! ### One sample a frame -/

variable {moves} {moves' : ℕ → BitVec 2}

/-- The game after `m` frames depends on `m` samples of the keys. -/
theorem Lab8.gameAfter_congr {m : ℕ} (h : ∀ j < m, moves (sampleCycle j) = moves' (sampleCycle j)) :
    s.gameAfter moves m = s.gameAfter moves' m := by
  refine trace_congr Game.frame s.game.game fun j hj => ?_
  unfold playedMove
  rw [h j hj]

/-- **The screen ignores all other keys.** Two runs after a video reset, from one state and with
    `KEY[1:0]` up, whose samples of `KEY[3:2]` agree in the sampling cycles of the frames up to `m`
    show the same picture in video frame `m`, whatever `KEY[3:2]` does in every other cycle; the
    first two pixels after the reset apart. -/
theorem screen_ignores_other_keys {m : ℕ}
    (h : ∀ j ≤ m, moves (sampleCycle j) = moves' (sampleCycle j)) {x y : ℕ} (hx : x < 640)
    (hy : y < 480) (hk : 2 ≤ pixelNo m x y) :
    (lab8Run roms s moves (2 * pixelNo m x y)).vgaRgb
      = (lab8Run roms s moves' (2 * pixelNo m x y)).vgaRgb := by
  have hgame := s.gameAfter_congr (m := m + 1) fun j hj => h j (Nat.le_of_lt_succ hj)
  rw [lab8Run_screen roms s moves hx hy hk, lab8Run_screen roms s moves' hx hy hk, hgame]

/-- A tap on the left key between two samples leaves a pixel of the player as it is. -/
theorem screen_ignores_tap :
    (lab8Run (plainRoms 20) Lab8.start (fun _ => 0b11) (2 * pixelNo 1 165 110)).vgaRgb
      = (lab8Run (plainRoms 20) Lab8.start (fun n => if n < 1 ∨ 787197 < n then 0b11 else 0b01)
          (2 * pixelNo 1 165 110)).vgaRgb :=
  screen_ignores_other_keys (plainRoms 20) Lab8.start (m := 1) (by decide) (by decide) (by decide)
    (by decide)

end NsShaft
