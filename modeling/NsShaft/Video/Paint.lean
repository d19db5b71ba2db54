import NsShaft.Video.Converter

namespace NsShaft

open Hdl

/-!
# Painting with pictures

What `ball`, `scoreboard`, the ROMs and `color_mapper` do together, stated without addresses,
words and palettes: the pictures of the sprites are laid over each other and over the background,
the player in front of the floors and the floors in front of the characters, and black is
see-through.

The draw windows are tested with `<=` on wrapping differences, so they admit one column and one
row more than a picture has (`ownsWord_iff`), and pixels on the other side of a wrap.  Off those
pixels, `OffEdges`, the ideal renderer paints (`idealColour_paint`).

* `paint` — the abstract renderer.
* `Sprites.roms` — the ROMs that load the files of the images.
* `Shows` — what a flag and a word contribute to `color_mapper`.
* `idealColour_paint` — the ideal renderer with these ROMs paints the converted images.
* `idealColour_known` — it shows no unknown colour.
-/

/-! ### The abstract renderer -/

/-- A picture: the colour in a column and a row. -/
abbrev Picture := ℕ → ℕ → Rgb

/-- Something for every sprite. -/
structure Sprites (α : Type) where
  stand : α
  /-- `normal`, `roll_right`, `roll_left`, `spring`, `spikes`: what floors 1 to 5 look like. -/
  floor : Fin 5 → α
  /-- The digits, the heart and the half heart. -/
  char : Fin 12 → α

def Sprites.map {α β : Type} (f : α → β) (s : Sprites α) : Sprites β :=
  ⟨f s.stand, fun i => f (s.floor i), fun i => f (s.char i)⟩

/-- The pixel lies in the box of a size at a corner. -/
def InBox (drawX drawY x y xSize ySize : BitVec 10) : Prop :=
  (x.toNat ≤ drawX.toNat ∧ drawX.toNat < x.toNat + xSize.toNat) ∧
    y.toNat ≤ drawY.toNat ∧ drawY.toNat < y.toNat + ySize.toNat

instance (drawX drawY x y xSize ySize : BitVec 10) :
    Decidable (InBox drawX drawY x y xSize ySize) := by
  unfold InBox
  infer_instance

/-- The colour at a pixel of a picture with its corner at `(x, y)`. -/
def Picture.show (pic : Picture) (drawX drawY x y : BitVec 10) : Option Rgb :=
  let c := pic (drawX.toNat - x.toNat) (drawY.toNat - y.toNat)
  if c = black then none else some c

/-- The picture of a character; there is none for the indices 12 to 15. -/
def Sprites.charPicture (pics : Sprites Picture) (charIdx : BitVec 4) : Picture :=
  if h : charIdx.toNat < 12 then pics.char ⟨charIdx.toNat, h⟩ else fun _ _ => black

variable (pics : Sprites Picture) (p : Player) (f : Floors) (s : Scores) (drawX drawY : BitVec 10)

def paintPlayer : Option Rgb :=
  if InBox drawX drawY p.xPos p.yPos playerXSize playerYSize then
    pics.stand.show drawX drawY p.xPos p.yPos
  else none

def paintFloor : Option Rgb :=
  chain (fun i => decide (InBox drawX drawY (f.floorX i) (f.floorY i) floorXSize floorYSize))
    (fun i => (pics.floor i).show drawX drawY (f.floorX i) (f.floorY i)) none floorOrder

def paintChar : Option Rgb :=
  chain (fun c => decide (InBox drawX drawY c.x c.y charXSize charYSize))
    (fun c => (pics.charPicture (c.charIdx s)).show drawX drawY c.x c.y) none scoreboardCells

/-- **The abstract renderer.** -/
def paint : Rgb :=
  (((paintPlayer pics p drawX drawY).or (paintFloor pics f drawX drawY)).or
    (paintChar pics s drawX drawY)).getD (backgroundColor (bgCreate drawX drawY) drawX)

/-! ### Windows and boxes -/

/-- If the pixel is in a window, it is in the box: neither in the column and row that the window
    admits past the box, nor across a wrap. -/
def OffEdge (drawX drawY x y xSize ySize : BitVec 10) : Prop :=
  inWindow drawX drawY x y xSize ySize = true → InBox drawX drawY x y xSize ySize

/-- The pixel is off the edges of all sprites. -/
structure OffEdges (p : Player) (f : Floors) (drawX drawY : BitVec 10) : Prop where
  player : OffEdge drawX drawY p.xPos p.yPos playerXSize playerYSize
  floors : ∀ i, OffEdge drawX drawY (f.floorX i) (f.floorY i) floorXSize floorYSize
  cells : ∀ c ∈ scoreboardCells, OffEdge drawX drawY c.x c.y charXSize charYSize

variable {drawX drawY}

theorem InBox.inWindow {x y xSize ySize : BitVec 10} (h : InBox drawX drawY x y xSize ySize) :
    inWindow drawX drawY x y xSize ySize = true := by
  obtain ⟨⟨hx, hx'⟩, hy, hy'⟩ := h
  refine inWindow_eq_true.mpr ⟨BitVec.le_def.mpr ?_, BitVec.le_def.mpr ?_⟩
  · rw [BitVec.toNat_sub_of_le (BitVec.le_def.mpr hx)]
    omega
  · rw [BitVec.toNat_sub_of_le (BitVec.le_def.mpr hy)]
    omega

/-- Off the edge the window is the box. -/
theorem OffEdge.inWindow_eq {x y xSize ySize : BitVec 10}
    (h : OffEdge drawX drawY x y xSize ySize) :
    inWindow drawX drawY x y xSize ySize = decide (InBox drawX drawY x y xSize ySize) := by
  rw [Bool.eq_iff_iff, decide_eq_true_iff]
  exact ⟨h, InBox.inWindow⟩

/-! ### Loaded words -/

/-- The ROMs that load the files of the images. -/
def Sprites.roms (query : Rgb → ℕ) (images : Sprites Image) : Roms where
  stand := readmemh 5 1350 (outFile query 30 45 images.stand)
  normal := readmemh 5 2400 (outFile query 90 20 (images.floor 0))
  right := readmemh 5 2400 (outFile query 90 20 (images.floor 1))
  left := readmemh 5 2400 (outFile query 90 20 (images.floor 2))
  jump := readmemh 5 2400 (outFile query 90 20 (images.floor 3))
  spike := readmemh 5 2400 (outFile query 90 20 (images.floor 4))
  char := Vector.ofFn fun i => readmemh 5 1350 (outFile query 30 45 (images.char i))

variable {query : Rgb → ℕ} {paletteHex : List (BitVec 24)}

/-- In its box an image is read at its own pixel. -/
theorem readMem_outFile {w h size : ℕ} {x y xSize ySize : BitVec 10} (im : Image)
    (hw : xSize.toNat = w) (hh : ySize.toNat = h) (hsize : w * h ≤ size) (haddress : w + w * h < 2 ^ 19)
    (hbox : InBox drawX drawY x y xSize ySize) :
    readMem (readmemh 5 size (outFile query w h im)) (spriteAddress drawX drawY x y xSize)
      = some (BitVec.ofNat 5
          (paletteIndex query (im (drawX.toNat - x.toNat) (drawY.toNat - y.toNat)))) := by
  subst hw hh
  obtain ⟨⟨hx, hx'⟩, hy, hy'⟩ := hbox
  unfold readMem
  rw [spriteAddress_toNat ⟨hx, Nat.le_of_lt hx'⟩ ⟨hy, Nat.le_of_lt hy'⟩ haddress,
    readmemh_outFile hsize im (by omega) (by omega)]
  rfl

theorem standWord_roms (images : Sprites Image)
    (hbox : InBox drawX drawY p.xPos p.yPos playerXSize playerYSize) :
    standWord (images.roms query) (spriteAddress drawX drawY p.xPos p.yPos playerXSize)
      = some (BitVec.ofNat 5 (paletteIndex query
          (images.stand (drawX.toNat - p.xPos.toNat) (drawY.toNat - p.yPos.toNat)))) :=
  readMem_outFile images.stand rfl rfl (by decide) (by decide) hbox

/-- The memory of floor `i`. -/
def Roms.floorMem (roms : Roms) : Fin 5 → Vector Word 2400
  | 0 => roms.normal
  | 1 => roms.right
  | 2 => roms.left
  | 3 => roms.jump
  | 4 => roms.spike

theorem floorBuf_eq (roms : Roms) (address : BitVec 19) : ∀ i : Fin 5,
    floorBuf roms (BitVec.ofNat 3 (i.val + 1)) address = readMem (roms.floorMem i) address
  | 0 | 1 | 2 | 3 | 4 => rfl

theorem isFloor_ne_zero : ∀ i : Fin 5, BitVec.ofNat 3 (i.val + 1) ≠ 0 := by
  decide

theorem Sprites.floorMem_roms (images : Sprites Image) : ∀ i : Fin 5,
    (images.roms query).floorMem i = readmemh 5 2400 (outFile query 90 20 (images.floor i))
  | 0 | 1 | 2 | 3 | 4 => rfl

theorem floorBuf_roms (images : Sprites Image) {i : Fin 5}
    (hbox : InBox drawX drawY (f.floorX i) (f.floorY i) floorXSize floorYSize) :
    floorBuf (images.roms query) (BitVec.ofNat 3 (i.val + 1)) (floorAddress f drawX drawY i)
      = some (BitVec.ofNat 5 (paletteIndex query
          (images.floor i (drawX.toNat - (f.floorX i).toNat)
            (drawY.toNat - (f.floorY i).toNat)))) := by
  rw [floorBuf_eq, images.floorMem_roms]
  exact readMem_outFile (images.floor i) rfl rfl (by decide) (by decide) hbox

theorem charWord_roms (images : Sprites Image) {c : CharCell} {charIdx : BitVec 4}
    (h : charIdx.toNat < 12) (hbox : InBox drawX drawY c.x c.y charXSize charYSize) :
    charWord (images.roms query) charIdx (spriteAddress drawX drawY c.x c.y charXSize)
      = some (BitVec.ofNat 5 (paletteIndex query (images.char ⟨charIdx.toNat, h⟩
          (drawX.toNat - c.x.toNat) (drawY.toNat - c.y.toNat)))) := by
  have hmem : (images.roms query).char[charIdx.toNat]?
      = some (readmemh 5 1350 (outFile query 30 45 (images.char ⟨charIdx.toNat, h⟩))) := by
    simp [Sprites.roms, h]
  unfold charWord
  rw [hmem]
  exact readMem_outFile (images.char ⟨charIdx.toNat, h⟩) rfl rfl (by decide) (by decide) hbox

/-! ### Colours -/

/-- What a layer contributes to the picture: nothing, if its flag is down or its word is not
    visible, or its colour. -/
def Shows (flag : Prop) (word : Word) : Option Rgb → Prop
  | none => ¬ (flag ∧ visibleWord word = true)
  | some c => (flag ∧ visibleWord word = true) ∧ paletteColor word = some c

/-- `color_mapper` lays the layers over each other. -/
theorem colorMapper_of_shows {isFloor : BitVec 3} {standDataOut floorDataOut charDataOut : Word}
    {isChar isPlayer : Bool} {isBg : BitVec 2} {player floor char : Option Rgb}
    (hplayer : Shows (isPlayer = true) standDataOut player)
    (hfloor : Shows (isFloor ≠ 0) floorDataOut floor)
    (hchar : Shows (isChar = true) charDataOut char) :
    colorMapper isFloor drawX standDataOut floorDataOut charDataOut isChar isBg isPlayer
      = some (((player.or floor).or char).getD (backgroundColor isBg drawX)) := by
  unfold colorMapper
  cases player with
  -- the layers are tested from the front, and the first visible one decides
  | some c => rw [if_pos hplayer.1, hplayer.2, Option.some_or, Option.some_or, Option.getD_some]
  | none =>
    rw [if_neg hplayer, Option.none_or]
    cases floor with
    | some c => rw [if_pos hfloor.1, hfloor.2, Option.some_or, Option.getD_some]
    | none =>
      rw [if_neg hfloor, Option.none_or]
      cases char with
      | some c => rw [if_pos hchar.1, hchar.2, Option.getD_some]
      | none => rw [if_neg hchar, Option.getD_none]

/-- Both palettes of the scripts agree with `stand_palette_hex` up to index 24. -/
def Shared (paletteHex : List (BitVec 24)) : Prop := paletteHex.take 25 = standPaletteHex.take 25

theorem shared_resizer : Shared resizerPaletteHex := rfl

theorem shared_relative : Shared relativePaletteHex := rfl

theorem Shared.getElem? (h : Shared paletteHex) {i : ℕ} (hi : i < 25) :
    (paletteRgb paletteHex)[i]? = (paletteRgb standPaletteHex)[i]? := by
  have htake : ∀ l : List (BitVec 24), (paletteRgb l)[i]? = ((l.take 25)[i]?).map rgbOf := by
    intro l
    rw [paletteRgb, List.getElem?_map, List.getElem?_take_of_lt hi]
  rw [htake, htake, h]

/-- Among the first 25 entries only entry 0 is black. -/
theorem standPalette_black : ∀ i < 25, (paletteRgb standPaletteHex)[i]? = some black ↔ i = 0 := by
  decide

theorem paletteColor_eq {i : ℕ} (hi : i < 25) :
    paletteColor (some (BitVec.ofNat 5 i)) = (paletteRgb standPaletteHex)[i]? := by
  have hval : (BitVec.ofNat 5 i).toNat = i := by
    rw [BitVec.toNat_ofNat, Nat.mod_eq_of_lt (by omega)]
  rw [paletteColor, Option.bind_some, hval, paletteRgb, List.getElem?_map]

theorem visibleWord_eq {i : ℕ} (hi : i < 32) :
    visibleWord (some (BitVec.ofNat 5 i)) = true ↔ i ≠ 0 := by
  have hval : BitVec.ofNat 5 i = 0#5 ↔ i = 0 := by bv_omega
  simp [visibleWord, hval]

/-- **One pixel of an image.** If its index is below 25, the word that is loaded for it shows the
    pixel of the converted image. -/
theorem shows_outImg (hq : Quantises paletteHex query) (hshared : Shared paletteHex) (im : Image)
    {flag : Prop} (hflag : flag) {x y : BitVec 10}
    (hindex : paletteIndex query (im (drawX.toNat - x.toNat) (drawY.toNat - y.toNat)) < 25) :
    Shows flag
      (some (BitVec.ofNat 5
        (paletteIndex query (im (drawX.toNat - x.toNat) (drawY.toNat - y.toNat)))))
      (Picture.show (outImg paletteHex query im) drawX drawY x y) := by
  have hentry := hq.outImg_entry im (drawX.toNat - x.toNat) (drawY.toNat - y.toNat)
  rw [hshared.getElem? hindex] at hentry
  have hblack := standPalette_black _ hindex
  rw [hentry, Option.some_inj] at hblack
  simp only [Picture.show]
  -- entry 0 is the only black one, and `color_mapper` sees through it
  by_cases hzero : outImg paletteHex query im (drawX.toNat - x.toNat) (drawY.toNat - y.toNat) = black
  · rw [if_pos hzero]
    rintro ⟨-, hvisible⟩
    exact (visibleWord_eq (by omega)).mp hvisible (hblack.mp hzero)
  · rw [if_neg hzero]
    exact ⟨⟨hflag, (visibleWord_eq (by omega)).mpr (mt hblack.mpr hzero)⟩,
      (paletteColor_eq hindex).trans hentry⟩

/-! ### The ideal renderer -/

/-- Every pixel of every image has an index below `n`. -/
structure Sprites.IndicesBelow (query : Rgb → ℕ) (n : ℕ) (images : Sprites Image) : Prop where
  stand : ∀ x y, paletteIndex query (images.stand x y) < n
  floor : ∀ i x y, paletteIndex query (images.floor i x y) < n
  char : ∀ i x y, paletteIndex query (images.char i x y) < n

/-- The converted images. -/
def Sprites.converted (paletteHex : List (BitVec 24)) (query : Rgb → ℕ) (images : Sprites Image) :
    Sprites Picture := images.map (outImg paletteHex query)

section Layers

variable {images : Sprites Image} {p f}
variable (hq : Quantises paletteHex query) (hshared : Shared paletteHex)
  (hin : images.IndicesBelow query 25)
include hq hshared hin

theorem shows_player (hoff : OffEdge drawX drawY p.xPos p.yPos playerXSize playerYSize) :
    Shows ((drawPlayer p drawX drawY).isPlayer = true)
      (standWord (images.roms query) (drawPlayer p drawX drawY).standReadAddress)
      (paintPlayer (images.converted paletteHex query) p drawX drawY) := by
  unfold drawPlayer paintPlayer
  rw [hoff.inWindow_eq]
  by_cases hbox : InBox drawX drawY p.xPos p.yPos playerXSize playerYSize
  · rw [if_pos hbox, if_pos (decide_eq_true hbox)]
    show Shows (true = true) (standWord (images.roms query) _) _
    rw [standWord_roms p images hbox]
    exact shows_outImg hq hshared images.stand rfl (hin.stand _ _)
  · rw [if_neg hbox, if_neg (by simpa using hbox)]
    rintro ⟨hflag, -⟩
    cases hflag

theorem shows_floor (hoff : ∀ i, OffEdge drawX drawY (f.floorX i) (f.floorY i) floorXSize floorYSize) :
    Shows ((drawFloor f drawX drawY).isFloor ≠ 0)
      (floorBuf (images.roms query) (drawFloor f drawX drawY).isFloor
        (drawFloor f drawX drawY).floorReadAddress)
      (paintFloor (images.converted paletteHex query) f drawX drawY) := by
  rw [drawFloor_eq]
  unfold drawFloorIn paintFloor chain
  have htests : firstArm (floorPixel f drawX drawY) floorOrder
      = firstArm (fun i => decide (InBox drawX drawY (f.floorX i) (f.floorY i) floorXSize floorYSize))
          floorOrder := firstArm_congr fun i _ => (hoff i).inWindow_eq
  rw [← htests]
  cases harm : firstArm (floorPixel f drawX drawY) floorOrder with
  | none =>
    rintro ⟨hflag, -⟩
    exact hflag rfl
  | some i =>
    have hpixel : floorPixel f drawX drawY i = true := test_of_firstArm harm
    show Shows (BitVec.ofNat 3 (i.val + 1) ≠ 0)
      (floorBuf (images.roms query) (BitVec.ofNat 3 (i.val + 1)) (floorAddress f drawX drawY i)) _
    -- both chains take the arm of floor `i`, and its memory is read at the pixel's own cell
    rw [floorBuf_roms f images (hoff i hpixel)]
    exact shows_outImg hq hshared (images.floor i) (isFloor_ne_zero i) (hin.floor i _ _)

theorem shows_char (hoff : ∀ c ∈ scoreboardCells, OffEdge drawX drawY c.x c.y charXSize charYSize) :
    Shows ((scoreboard s drawX drawY).isChar = true)
      (charWord (images.roms query) (scoreboard s drawX drawY).charIdx
        (scoreboard s drawX drawY).charReadAddress)
      (paintChar (images.converted paletteHex query) s drawX drawY) := by
  unfold scoreboard paintChar chain
  -- off the edges the window tests are box tests, so both chains take the same arm
  have htests : firstArm (CharCell.pixel drawX drawY) scoreboardCells
      = firstArm (fun c => decide (InBox drawX drawY c.x c.y charXSize charYSize))
          scoreboardCells := firstArm_congr fun c hc => (hoff c hc).inWindow_eq
  rw [← htests]
  cases harm : firstArm (CharCell.pixel drawX drawY) scoreboardCells with
  | none =>
    rintro ⟨hflag, -⟩
    cases hflag
  | some c =>
    have hpixel : c.pixel drawX drawY = true := test_of_firstArm harm
    have hbox := hoff c (mem_of_firstArm harm) hpixel
    show Shows (true = true) (charWord (images.roms query) (c.charIdx s)
        (spriteAddress drawX drawY c.x c.y charXSize))
      (Picture.show ((images.converted paletteHex query).charPicture (c.charIdx s)) drawX drawY c.x c.y)
    unfold Sprites.charPicture
    by_cases hidx : (c.charIdx s).toNat < 12
    · rw [dif_pos hidx, charWord_roms images hidx hbox]
      exact shows_outImg hq hshared (images.char ⟨_, hidx⟩) rfl (hin.char _ _ _)
    · -- there is no such character, and its word is 0
      have hnone : (images.roms query).char[(c.charIdx s).toNat]? = none := by
        simp [hidx]
      rw [dif_neg hidx, charWord, hnone]
      rintro ⟨-, hvisible⟩
      cases hvisible

/-- **Painting.** Off the edges, the ideal renderer with the ROMs of the images paints the
    converted images. -/
theorem idealColour_paint (hoff : OffEdges p f drawX drawY) :
    idealColour (images.roms query) p f s drawX drawY
      = some (paint (images.converted paletteHex query) p f s drawX drawY) :=
  colorMapper_of_shows (shows_player hq hshared hin hoff.player)
    (shows_floor hq hshared hin hoff.floors) (shows_char s hq hshared hin hoff.cells)

end Layers

/-- A visible word of the player is in front. -/
theorem idealColour_player {p : Player} (images : Sprites Image)
    (hbox : InBox drawX drawY p.xPos p.yPos playerXSize playerYSize) {i : ℕ} (hi : i < 32)
    (hindex : paletteIndex query
      (images.stand (drawX.toNat - p.xPos.toNat) (drawY.toNat - p.yPos.toNat)) = i) (hne : i ≠ 0) :
    idealColour (images.roms query) p f s drawX drawY = paletteColor (some (BitVec.ofNat 5 i)) := by
  have hword : standWord (images.roms query) (spriteAddress drawX drawY p.xPos p.yPos playerXSize)
      = some (BitVec.ofNat 5 i) := by
    rw [standWord_roms p images hbox, hindex]
  have hdraw : drawPlayer p drawX drawY
      = ⟨true, spriteAddress drawX drawY p.xPos p.yPos playerXSize⟩ := by
    rw [drawPlayer, if_pos hbox.inWindow]
  simp only [idealColour, hdraw, hword, colorMapper]
  rw [if_pos ⟨trivial, (visibleWord_eq hi).mpr hne⟩]

/-- The palette of `png_to_palette_resizer.py` has 25 entries. -/
theorem indicesBelow_resizer (hq : Quantises resizerPaletteHex query) (images : Sprites Image) :
    images.IndicesBelow query 25 :=
  ⟨fun _ _ => hq.index_lt _, fun _ _ _ => hq.index_lt _, fun _ _ _ => hq.index_lt _⟩

/-! ### Known colours -/

/-- The word is not visible, or `stand_palette_hex` has its colour. -/
def Word.Known (word : Word) : Prop := visibleWord word = true → ∃ c, paletteColor word = some c

theorem known_none : Word.Known none := by
  rintro ⟨⟩

theorem known_ofNat {i : ℕ} (hi : i < 27) : Word.Known (some (BitVec.ofNat 5 i)) := by
  intro _
  have hval : (BitVec.ofNat 5 i).toNat = i := by
    rw [BitVec.toNat_ofNat, Nat.mod_eq_of_lt (by omega)]
  have hlt : i < standPaletteHex.length := hi
  refine ⟨rgbOf standPaletteHex[i], ?_⟩
  rw [paletteColor, Option.bind_some, hval, List.getElem?_eq_getElem hlt, Option.map_some]

/-- A word that is read from the file of an image, at whatever address, is unknown or that of a
    pixel. -/
theorem known_readMem {w h size : ℕ} (im : Image) (him : ∀ x y, paletteIndex query (im x y) < 27)
    (address : BitVec 19) : Word.Known (readMem (readmemh 5 size (outFile query w h im)) address) := by
  unfold readMem
  by_cases ha : address.toNat < size
  · unfold outFile
    rw [readmemh_hexLines _ ha, Option.join_some]
    cases hcell : (rowMajor w h fun x y => paletteIndex query (im x y))[address.toNat]? with
    | none => exact known_none
    | some i =>
      obtain ⟨x, y, rfl⟩ := mem_rowMajor (List.mem_of_getElem? hcell)
      exact known_ofNat (him x y)
  · -- past the end of the memory
    have hnone : (readmemh 5 size (outFile query w h im))[address.toNat]? = none := by
      simp [ha]
    rw [hnone]
    exact known_none

theorem colorMapper_known {isFloor : BitVec 3} {standDataOut floorDataOut charDataOut : Word}
    {isChar isPlayer : Bool} {isBg : BitVec 2} (hstand : standDataOut.Known)
    (hfloor : floorDataOut.Known) (hchar : charDataOut.Known) :
    ∃ c, colorMapper isFloor drawX standDataOut floorDataOut charDataOut isChar isBg isPlayer
      = some c := by
  unfold colorMapper
  split_ifs with hp hf hc
  · exact hstand hp.2
  · exact hfloor hf.2
  · exact hchar hc.2
  · exact ⟨_, rfl⟩

/-- **Known colours.** If every index is below 27, every pixel has a colour, also on the edges and
    across a wrap, where words of other pixels or behind the images are read. -/
theorem idealColour_known {images : Sprites Image} (hin : images.IndicesBelow query 27)
    (drawX drawY : BitVec 10) : ∃ c, idealColour (images.roms query) p f s drawX drawY = some c := by
  refine colorMapper_known (known_readMem images.stand hin.stand _) ?_ ?_
  · unfold floorBuf
    -- `is_floor` picks one of the five memories, or the word 0
    split_ifs
    · exact known_readMem _ (hin.floor 0) _
    · exact known_readMem _ (hin.floor 1) _
    · exact known_readMem _ (hin.floor 2) _
    · exact known_readMem _ (hin.floor 3) _
    · exact known_readMem _ (hin.floor 4) _
    · exact known_ofNat (by decide)
  · unfold charWord
    split
    · next mem hmem =>
      obtain ⟨hidx, rfl⟩ := Vector.getElem?_eq_some_iff.mp hmem
      have hchar : (images.roms query).char[(scoreboard s drawX drawY).charIdx.toNat]
          = readmemh 5 1350 (outFile query 30 45
              (images.char ⟨(scoreboard s drawX drawY).charIdx.toNat, hidx⟩)) := by
        simp [Sprites.roms]
      rw [hchar]
      exact known_readMem _ (hin.char _) _
    · exact known_ofNat (by decide)

end NsShaft
