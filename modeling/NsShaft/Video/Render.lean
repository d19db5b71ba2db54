import NsShaft.Video.Panel

namespace NsShaft

open Hdl

/-!
# Sprite ROMs and the color mapper

The ROM modules `standROM`, `floorROM`, `charROM` and module `color_mapper`.  A word is a 5-bit
palette index or the unknown value `x` (`none`): memories may hold `x` where nothing was loaded,
and reading past the end of a memory or of the palette gives `x`.  A test on `x` is not taken.

* `floorBuf`, `standWord`, `charWord` — what the ROM registers sample.
* `colorMapper` — the colour of a pixel from the layer flags and the sampled words.
* `idealColour` — the colour of a pixel with all words read at its own addresses: what the
  pipelined renderer is to show.
-/

/-! ### ROMs -/

/-- A palette index, or the unknown value. -/
abbrev Word := Option (BitVec 5)

/-- The contents of the sprite memories. -/
structure Roms where
  stand : Vector Word 1350
  normal : Vector Word 2400
  left : Vector Word 2400
  right : Vector Word 2400
  jump : Vector Word 2400
  spike : Vector Word 2400
  /-- `mem_0` to `mem_9`, `mem_heart`, `mem_half_heart`. -/
  char : Vector (Vector Word 1350) 12

/-- A memory read; `x` past the end. -/
def readMem {size : ℕ} (mem : Vector Word size) (address : BitVec 19) : Word :=
  (mem[address.toNat]?).join

/-- The word that `standROM` samples. -/
def standWord (roms : Roms) (address : BitVec 19) : Word := readMem roms.stand address

/-- `floor_buf` of `floorROM`. -/
def floorBuf (roms : Roms) (isFloor : BitVec 3) (address : BitVec 19) : Word :=
  if isFloor = 0b001 then readMem roms.normal address
  else if isFloor = 0b010 then readMem roms.right address
  else if isFloor = 0b011 then readMem roms.left address
  else if isFloor = 0b100 then readMem roms.jump address
  else if isFloor = 0b101 then readMem roms.spike address
  else some 0

/-- The word that `charROM` samples. -/
def charWord (roms : Roms) (charIdx : BitVec 4) (address : BitVec 19) : Word :=
  match roms.char[charIdx.toNat]? with
  | some mem => readMem mem address
  -- the last `else` of `charROM`
  | none => some 0

/-! ### `Color_Mapper.sv` -/

/-- The VGA outputs. -/
@[ext] structure Rgb where
  red : BitVec 8
  green : BitVec 8
  blue : BitVec 8
deriving DecidableEq, Repr

/-- `stand_palette_hex`. -/
def standPaletteHex : List (BitVec 24) :=
  [0x000000, 0xFFFFFF, 0xC36633, 0xC5A400, 0x651C0F, 0xA51914, 0xE3D4D4, 0xCD827E, 0x976E5A,
   0x604A2F, 0x7B4118, 0xB3392B, 0xFC4D66, 0x3D72A0, 0x7499CD, 0xB4E3FF, 0x6F94D2, 0x4D70B1,
   0x2A3032, 0xA3A8A5, 0xF9FF00, 0x52CE4F, 0x5BAA90, 0x48887E, 0xFFC7BD, 0xFFC7BD, 0xFFC7BD]

/-- Bits 23:16, 15:8 and 7:0 of a palette entry. -/
def rgbOf (c : BitVec 24) : Rgb :=
  ⟨c.extractLsb' 16 8, c.extractLsb' 8 8, c.extractLsb' 0 8⟩

/-- The palette colour of a word: `player_color`, `floor_color`, `char_color`. -/
def paletteColor (word : Word) : Option Rgb :=
  word.bind fun index => (standPaletteHex[index.toNat]?).map rgbOf

/-- The test `data_out != 0`, not taken on `x`. -/
def visibleWord (word : Word) : Bool := word.any (· != 0)

/-- The colour behind all sprites. -/
def backgroundColor (isBg : BitVec 2) (drawX : BitVec 10) : Rgb :=
  if isBg = 0b01 then ⟨0x22, 0x8B, 0x22⟩
  else if isBg = 0b10 then ⟨0x66, 0x66, 0xB2⟩
  else if isBg = 0b11 then ⟨0xB2, 0x22, 0x22⟩
  else ⟨0x3f, 0x00, 0x7f - (drawX.extractLsb' 3 7).setWidth 8⟩

/-- Module `color_mapper`; `none` is an unknown colour. -/
def colorMapper (isFloor : BitVec 3) (drawX : BitVec 10) (standDataOut floorDataOut charDataOut : Word)
    (isChar : Bool) (isBg : BitVec 2) (isPlayer : Bool) : Option Rgb :=
  -- index 0 is see-through for all three layers
  if isPlayer = true ∧ visibleWord standDataOut then paletteColor standDataOut
  else if isFloor ≠ 0 ∧ visibleWord floorDataOut then paletteColor floorDataOut
  else if isChar = true ∧ visibleWord charDataOut then paletteColor charDataOut
  else some (backgroundColor isBg drawX)

/-! ### The pure renderer -/

/-- The ideal colour of the pixel `(drawX, drawY)`: `color_mapper` on the layer flags of the
    pixel and on the ROM words at the addresses computed from the same pixel. -/
def idealColour (roms : Roms) (p : Player) (f : Floors) (s : Scores) (drawX drawY : BitVec 10) :
    Option Rgb :=
  let player := drawPlayer p drawX drawY
  let floor := drawFloor f drawX drawY
  let char := scoreboard s drawX drawY
  colorMapper floor.isFloor drawX (standWord roms player.standReadAddress)
    (floorBuf roms floor.isFloor floor.floorReadAddress)
    (charWord roms char.charIdx char.charReadAddress) char.isChar (bgCreate drawX drawY)
    player.isPlayer

/-- Whether a pixel shows a character does not depend on the score. -/
theorem scoreboard_isChar (s s' : Scores) (drawX drawY : BitVec 10) :
    (scoreboard s drawX drawY).isChar = (scoreboard s' drawX drawY).isChar := by
  unfold scoreboard chain
  cases firstArm (CharCell.pixel drawX drawY) scoreboardCells <;> rfl

end NsShaft
