import NsShaft.Top.FrameTiming

namespace NsShaft

open Hdl

/-!
# The pixel pipeline is aligned

The coordinates of a pixel last two `Clk` cycles: `VGA_CLK` high, then low.  The edge between
the two clocks the sprite ROMs with the addresses of the pixel, so in the second cycle, which
the next rise of `VGA_CLK` ends, the layer flags and the ROM words belong to the same pixel.

* `lab8Run_words` — what the ROM registers hold.
* `lab8Run_pixel` — the coordinates do not move while `VGA_CLK` falls.
* `pipeline_aligned` — the sampled colour is the ideal one.
-/

variable (roms : Roms) (s : Lab8) (moves : ℕ → BitVec 2)

/-- `VGA_CLK` is low in the even cycles. -/
theorem lab8Run_vgaClk (n : ℕ) : (lab8Run roms s moves n).video.vgaClk = false ↔ n % 2 = 0 := by
  rw [lab8Run_video]
  simp [videoAt]

/-- The coordinates and the blanking signal stay as they are while `VGA_CLK` falls. -/
theorem lab8Run_pixel {n : ℕ} (hodd : n % 2 = 1) :
    (lab8Run roms s moves (n + 1)).video.vga = (lab8Run roms s moves n).video.vga := by
  rw [lab8Run_video, lab8Run_video]
  exact (vgaAfter_hold n hodd).symm

/-- The ROM registers hold the words at the addresses of the cycle before. -/
theorem lab8Run_words (n : ℕ) :
    (lab8Run roms s moves (n + 1)).standDataOut
        = standWord roms (lab8Run roms s moves n).player.standReadAddress ∧
    (lab8Run roms s moves (n + 1)).floorDataOut
        = floorBuf roms (lab8Run roms s moves n).floor.isFloor
            (lab8Run roms s moves n).floor.floorReadAddress ∧
    (lab8Run roms s moves (n + 1)).charDataOut
        = charWord roms (lab8Run roms s moves n).char.charIdx
            (lab8Run roms s moves n).char.charReadAddress :=
  ⟨rfl, rfl, rfl⟩

/-- **Alignment.**  In every run after a video reset without reset keys, later than cycle 2 (the
    pixel in which `VGA_VS` leaves its reset value) and so in particular after a whole frame:
    at the end of a visible cycle with `VGA_CLK` low, which the next rise of `VGA_CLK` ends, the
    colour outputs are the ideal colour of the current pixel for the current positions and the
    score digits of the cycle before, when the ROMs were clocked; neither the pixel nor a
    position has changed since then. -/
theorem pipeline_aligned (n : ℕ) (hn : 1 < n)
    (hlow : (lab8Run roms s moves (n + 1)).video.vgaClk = false)
    (hvis : (lab8Run roms s moves (n + 1)).video.vga.vgaBlankN = true) :
    (lab8Run roms s moves (n + 1)).vgaRgb
        = idealColour roms (lab8Run roms s moves (n + 1)).game.ball.player
            (lab8Run roms s moves (n + 1)).game.floor.pos
            (scoreDigits (lab8Run roms s moves n).curScore)
            (lab8Run roms s moves (n + 1)).drawX (lab8Run roms s moves (n + 1)).drawY ∧
      (lab8Run roms s moves (n + 1)).video.vga = (lab8Run roms s moves n).video.vga ∧
      (lab8Run roms s moves (n + 1)).game.game = (lab8Run roms s moves n).game.game := by
  rw [lab8Run_vgaClk] at hlow
  have hpixel := lab8Run_pixel roms s moves (n := n) (by omega)
  rw [hpixel] at hvis
  have hgame := lab8Run_game_of_visible roms s moves hn hvis
  refine ⟨?_, hpixel, hgame⟩
  have hplayer : (lab8Run roms s moves (n + 1)).game.ball.player
      = (lab8Run roms s moves n).game.ball.player := congrArg Game.player hgame
  have hfloors : (lab8Run roms s moves (n + 1)).game.floor.pos
      = (lab8Run roms s moves n).game.floor.pos := congrArg Game.floors hgame
  obtain ⟨hstand, hfloor, hchar⟩ := lab8Run_words roms s moves n
  unfold Lab8.vgaRgb idealColour
  rw [hstand, hfloor, hchar]
  -- all signals of both cycles are now those of the first, the character flag of the score apart
  unfold Lab8.player Lab8.floor Lab8.char Lab8.drawX Lab8.drawY
  rw [hpixel, hplayer, hfloors, scoreboard_isChar]

/-- ROMs with one word at every address. -/
def plainRoms (index : BitVec 5) : Roms where
  stand := Vector.replicate 1350 (some index)
  normal := Vector.replicate 2400 (some index)
  left := Vector.replicate 2400 (some index)
  right := Vector.replicate 2400 (some index)
  jump := Vector.replicate 2400 (some index)
  spike := Vector.replicate 2400 (some index)
  char := Vector.replicate 12 (Vector.replicate 1350 (some index))

/-- The board after a press of both reset keys. -/
def Lab8.start : Lab8 := ⟨VideoRegs.released, GameRegs.start, 0, none, none, none⟩

/-- The second pixel cycle of pixel (165, 110) of the second video frame, on the player. -/
theorem pipeline_aligned_second_frame :
    (lab8Run (plainRoms 20) Lab8.start (fun _ => 0b11) 1016330).vgaRgb
      = idealColour (plainRoms 20)
          (lab8Run (plainRoms 20) Lab8.start (fun _ => 0b11) 1016330).game.ball.player
          (lab8Run (plainRoms 20) Lab8.start (fun _ => 0b11) 1016330).game.floor.pos
          (scoreDigits (lab8Run (plainRoms 20) Lab8.start (fun _ => 0b11) 1016329).curScore)
          (lab8Run (plainRoms 20) Lab8.start (fun _ => 0b11) 1016330).drawX
          (lab8Run (plainRoms 20) Lab8.start (fun _ => 0b11) 1016330).drawY :=
  (pipeline_aligned (plainRoms 20) Lab8.start (fun _ => 0b11) 1016329 (by decide)
    (by rw [lab8Run_video]; decide) (by rw [lab8Run_video]; decide)).1

end NsShaft
