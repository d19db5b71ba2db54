import NsShaft.Top.Screen
import NsShaft.Video.Paint

namespace NsShaft

open Hdl

/-!
# From the images to the screen

The images are converted by one of the two scripts, the ROM modules load the files, and the board
plays: the screen then shows the converted images, laid over each other where the game has them.
All runs start with a video reset, with `KEY[1:0]` up from then on, and the first two pixels after
it are left out.

* `screen_shows_pictures` — the colour of every pixel that is off the edges of the sprites.
* `screen_has_colour` — every pixel has a known colour, the edges included.
* `player_shows_converted_iff` — the three entries that only one of the scripts has are shown in
  other colours.
-/

variable {paletteHex : List (BitVec 24)} {query : Rgb → ℕ}
variable (images : Sprites Image) (s : Lab8) (moves : ℕ → BitVec 2)

/-- **Pictures.** Let the images be converted with the palette of `png_to_palette_resizer.py`, or
    with that of `png_to_palette_relative_resizer.py` if no pixel falls on its last three entries.
    From every state and for all samples of `KEY[3:2]`, every pixel of video frame `m` that is off
    the edges of the sprites, and none of the first two after the reset, is painted with the
    converted images, for the game after `m + 1` frames. -/
theorem screen_shows_pictures
    (hpalette : paletteHex = resizerPaletteHex ∨
      paletteHex = relativePaletteHex ∧ images.IndicesBelow query 25)
    (hq : Quantises paletteHex query) {m x y : ℕ} (hx : x < 640) (hy : y < 480)
    (hk : 2 ≤ pixelNo m x y)
    (hoff : OffEdges (s.gameAfter moves (m + 1)).player (s.gameAfter moves (m + 1)).floors
      (BitVec.ofNat 10 x) (BitVec.ofNat 10 y)) :
    (lab8Run (images.roms query) s moves (2 * pixelNo m x y)).vgaRgb
      = some (paint (images.converted paletteHex query) (s.gameAfter moves (m + 1)).player
          (s.gameAfter moves (m + 1)).floors (s.scoresAt (pixelNo m x y))
          (BitVec.ofNat 10 x) (BitVec.ofNat 10 y)) := by
  rw [lab8Run_screen (images.roms query) s moves hx hy hk]
  rcases hpalette with rfl | ⟨rfl, hin⟩
  · exact idealColour_paint _ hq shared_resizer (indicesBelow_resizer hq images) hoff
  · exact idealColour_paint _ hq shared_relative hin hoff

/-- Sprites of one colour. -/
def plainSprites (c : Rgb) : Sprites Image :=
  ⟨fun _ _ => ⟨c, 255⟩, fun _ _ _ => ⟨c, 255⟩, fun _ _ _ => ⟨c, 255⟩⟩

/-- A pixel of the player in the second video frame. -/
theorem screen_shows_pictures_player :
    (lab8Run ((plainSprites ⟨0xF9, 0xFF, 0x00⟩).roms
        (firstNearest colourDist (paletteRgb resizerPaletteHex))) Lab8.start (fun _ => 0b11)
        (2 * pixelNo 1 165 110)).vgaRgb
      = some (paint ((plainSprites ⟨0xF9, 0xFF, 0x00⟩).converted resizerPaletteHex
          (firstNearest colourDist (paletteRgb resizerPaletteHex)))
          (Lab8.start.gameAfter (fun _ => 0b11) 2).player
          (Lab8.start.gameAfter (fun _ => 0b11) 2).floors (Lab8.start.scoresAt (pixelNo 1 165 110))
          165 110) :=
  screen_shows_pictures (plainSprites ⟨0xF9, 0xFF, 0x00⟩) Lab8.start (fun _ => 0b11)
    (m := 1) (x := 165) (y := 110) (.inl rfl) (quantises_firstNearest (by decide))
    (by decide) (by decide) (by decide)
    ⟨by unfold OffEdge; decide +kernel, by unfold OffEdge; decide +kernel,
      by unfold OffEdge; decide +kernel⟩

/-! ### Edges -/

/-- **No unknown colour.** If no pixel of the images has index 27 or more, every pixel of every
    video frame but the first two after the reset has a colour, wherever the sprites stand, from
    every state and for all samples of `KEY[3:2]`. -/
theorem screen_has_colour (hin : images.IndicesBelow query 27) {m x y : ℕ} (hx : x < 640)
    (hy : y < 480) (hk : 2 ≤ pixelNo m x y) :
    ∃ c, (lab8Run (images.roms query) s moves (2 * pixelNo m x y)).vgaRgb = some c := by
  rw [lab8Run_screen (images.roms query) s moves hx hy hk]
  exact idealColour_known _ _ _ hin _ _

/-- Pixel (165, 147) of the second video frame reads past the sprite of the player. -/
theorem screen_has_colour_edge :
    ∃ c, (lab8Run ((plainSprites ⟨0xF9, 0xFF, 0x00⟩).roms
        (firstNearest colourDist (paletteRgb resizerPaletteHex))) Lab8.start (fun _ => 0b11)
      (2 * pixelNo 1 165 147)).vgaRgb = some c := by
  have hq : Quantises resizerPaletteHex (firstNearest colourDist (paletteRgb resizerPaletteHex)) :=
    quantises_firstNearest (by decide)
  have hlt : ∀ pixel, paletteIndex (firstNearest colourDist (paletteRgb resizerPaletteHex)) pixel
      < 27 := fun pixel => lt_trans (hq.index_lt pixel) (by decide)
  exact screen_has_colour (plainSprites ⟨0xF9, 0xFF, 0x00⟩) Lab8.start (fun _ => 0b11)
    ⟨fun _ _ => hlt _, fun _ _ _ => hlt _, fun _ _ _ => hlt _⟩ (m := 1) (by decide) (by decide)
    (by decide)

/-! ### The last three entries -/

/-- What `color_mapper` shows for the indices of `png_to_palette_relative_resizer.py`. -/
theorem paletteColor_relative : ∀ i < 28, i ≠ 0 →
    (paletteColor (some (BitVec.ofNat 5 i)) = (paletteRgb relativePaletteHex)[i]? ↔ i < 25) := by
  decide

/-- **Other colours.** With the palette of `png_to_palette_relative_resizer.py`, a pixel of the
    player that is not see-through, and none of the first two after the reset, has the colour of
    the converted image if and only if its index is none of the last three, which are 25 to 27. -/
theorem player_shows_converted_iff (hq : Quantises relativePaletteHex query) {m x y : ℕ}
    (hx : x < 640) (hy : y < 480) (hk : 2 ≤ pixelNo m x y) {p : Player}
    (hp : p = (s.gameAfter moves (m + 1)).player)
    (hbox : InBox (BitVec.ofNat 10 x) (BitVec.ofNat 10 y) p.xPos p.yPos playerXSize playerYSize)
    (hvisible : outImg relativePaletteHex query images.stand (x - p.xPos.toNat) (y - p.yPos.toNat)
      ≠ black) :
    (lab8Run (images.roms query) s moves (2 * pixelNo m x y)).vgaRgb
        = some (outImg relativePaletteHex query images.stand (x - p.xPos.toNat)
            (y - p.yPos.toNat)) ↔
      paletteIndex query (images.stand (x - p.xPos.toNat) (y - p.yPos.toNat)) < 25 := by
  have hx' : (BitVec.ofNat 10 x).toNat = x := by
    rw [BitVec.toNat_ofNat, Nat.mod_eq_of_lt (by omega)]
  have hy' : (BitVec.ofNat 10 y).toNat = y := by
    rw [BitVec.toNat_ofNat, Nat.mod_eq_of_lt (by omega)]
  have hentry := hq.outImg_entry images.stand (x - p.xPos.toNat) (y - p.yPos.toNat)
  have hlt : paletteIndex query (images.stand (x - p.xPos.toNat) (y - p.yPos.toNat)) < 28 :=
    hq.index_lt _
  -- only entry 0 is black
  have hne : paletteIndex query (images.stand (x - p.xPos.toNat) (y - p.yPos.toNat)) ≠ 0 := by
    intro h0
    rw [h0] at hentry
    exact hvisible (Option.some.inj hentry).symm
  rw [lab8Run_screen (images.roms query) s moves hx hy hk, ← hp, ← hentry,
    idealColour_player _ _ images hbox (by omega) (by rw [hx', hy']) hne]
  exact paletteColor_relative _ hlt hne

/-- A sprite of the colour of entry 26 is shown in another colour. -/
theorem player_shows_other_colour :
    (lab8Run ((plainSprites ⟨0xF8, 0x97, 0xBD⟩).roms
        (firstNearest colourDist (paletteRgb relativePaletteHex))) Lab8.start (fun _ => 0b11)
        (2 * pixelNo 1 165 110)).vgaRgb
      ≠ some (outImg relativePaletteHex (firstNearest colourDist (paletteRgb relativePaletteHex))
          (plainSprites ⟨0xF8, 0x97, 0xBD⟩).stand (165 - 160) (110 - 102)) := by
  have hiff := player_shows_converted_iff (plainSprites ⟨0xF8, 0x97, 0xBD⟩) Lab8.start
    (fun _ => 0b11) (quantises_firstNearest (by decide)) (m := 1) (x := 165) (y := 110)
    (by decide) (by decide) (by decide) (p := ⟨160, 102, 0, 2, false, false⟩) (by decide +kernel)
    (by decide) (by decide +kernel)
  have hindex : ¬ paletteIndex (firstNearest colourDist (paletteRgb relativePaletteHex))
      ((plainSprites ⟨0xF8, 0x97, 0xBD⟩).stand (165 - 160) (110 - 102)) < 25 := by
    decide +kernel
  exact mt hiff.mp hindex

end NsShaft
