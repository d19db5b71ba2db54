import NsShaft.Video.Panel
import Mathlib.Data.List.Pairwise

namespace NsShaft

open Hdl

/-!
# The tiles of the scoreboard

The sixteen cells of `scoreboard` lie side by side in four rows, and the three regions of
`bgCreate` side by side on the screen.  All windows are tested with `<=`, so neighbours share
their common edge.

* `scoreboardCells_pairwise_iff` — at which pixels at most one cell test holds.
* `CharCell.address_bijOn`, `CharCell.not_bijOn` — the addresses of a cell fill the character
  memory on its own 30 columns and 45 rows, and leave it on all the pixels it claims.
* `bgTests_pairwise_iff` — at which pixels at most one region test holds.
* `scoreboard_tiles_iff` — all three.
-/

/-! ### Cells -/

/-- The corner of a cell. -/
def CharCell.corner (c : CharCell) : ℕ × ℕ := (c.x.toNat, c.y.toNat)

/-- The rows of cells: scores and hearts of player 1, scores and hearts of player 2. -/
def cellRows : List ℕ := [90, 150, 330, 385]

/-- The columns in which one cell ends and the next one begins. -/
def edgeColumns : List ℕ := [540, 570, 600]

/-- The pixel lies on the common edge of two cells. -/
def OnCellEdge (drawX drawY : BitVec 10) : Prop :=
  drawX.toNat ∈ edgeColumns ∧ ∃ row ∈ cellRows, row ≤ drawY.toNat ∧ drawY.toNat ≤ row + 45

/-- All cells lie on the screen. -/
theorem scoreboardCells_onScreen : ∀ c ∈ scoreboardCells,
    c.x.toNat + 30 < 640 ∧ c.y.toNat + 45 < 480 := by
  simp only [scoreboardCells, List.forall_mem_cons]
  decide

/-- The pixel lies in the cell at a corner, its far edges included. -/
def InCell (drawX drawY : BitVec 10) (corner : ℕ × ℕ) : Prop :=
  (corner.1 ≤ drawX.toNat ∧ drawX.toNat ≤ corner.1 + 30) ∧
    corner.2 ≤ drawY.toNat ∧ drawY.toNat ≤ corner.2 + 45

theorem CharCell.pixel_iff {c : CharCell} (hc : c ∈ scoreboardCells) (drawX drawY : BitVec 10) :
    c.pixel drawX drawY = true ↔ InCell drawX drawY c.corner := by
  obtain ⟨hx, hy⟩ := scoreboardCells_onScreen c hc
  have hw : charXSize.toNat = 30 := rfl
  have hh : charYSize.toNat = 45 := rfl
  exact inWindow_iff (by rw [hw]; omega) (by rw [hh]; omega)

/-- Two cells of the scoreboard are apart, or neighbours in a row with a common edge. -/
theorem scoreboardCells_apart : (scoreboardCells.map CharCell.corner).Pairwise fun a b =>
    a.2 + 45 < b.2 ∨ b.2 + 45 < a.2 ∨ a.1 + 30 < b.1 ∨ b.1 + 30 < a.1 ∨
      (a.2 = b.2 ∧ a.2 ∈ cellRows ∧
        ((a.1 + 30 = b.1 ∧ b.1 ∈ edgeColumns) ∨ (b.1 + 30 = a.1 ∧ a.1 ∈ edgeColumns))) := by
  decide

/-- At each edge two neighbours meet. -/
theorem scoreboardCells_meet : ∀ e ∈ edgeColumns, ∀ row ∈ cellRows,
    [(e - 30, row), (e, row)].Sublist (scoreboardCells.map CharCell.corner) ∨
      [(e, row), (e - 30, row)].Sublist (scoreboardCells.map CharCell.corner) := by
  decide

/-- **Cell tests.** At most one of the sixteen holds at a pixel if and only if it is not on the
    common edge of two cells. -/
theorem scoreboardCells_pairwise_iff (drawX drawY : BitVec 10) :
    (scoreboardCells.Pairwise fun c c' =>
      ¬ (c.pixel drawX drawY = true ∧ c'.pixel drawX drawY = true)) ↔ ¬ OnCellEdge drawX drawY := by
  have hcorners : (scoreboardCells.Pairwise fun c c' =>
      ¬ (c.pixel drawX drawY = true ∧ c'.pixel drawX drawY = true)) ↔
      (scoreboardCells.map CharCell.corner).Pairwise fun a b =>
        ¬ (InCell drawX drawY a ∧ InCell drawX drawY b) := by
    rw [List.pairwise_map]
    refine List.Pairwise.iff_of_mem fun hc hc' => ?_
    rw [CharCell.pixel_iff hc, CharCell.pixel_iff hc']
  rw [hcorners]
  constructor
  · rintro hone ⟨hcol, row, hrow, hge, hle⟩
    have hcolumns : ∀ e ∈ edgeColumns, 30 ≤ e := by decide
    have hwide := hcolumns _ hcol
    -- both neighbours contain the pixel
    have hleft : InCell drawX drawY (drawX.toNat - 30, row) :=
      ⟨⟨Nat.sub_le _ _, by show drawX.toNat ≤ drawX.toNat - 30 + 30; omega⟩, hge, hle⟩
    have hright : InCell drawX drawY (drawX.toNat, row) :=
      ⟨⟨Nat.le_refl _, Nat.le_add_right _ _⟩, hge, hle⟩
    rcases scoreboardCells_meet _ hcol row hrow with hsub | hsub
    · exact (List.pairwise_pair.mp (hone.sublist hsub)) ⟨hleft, hright⟩
    · exact (List.pairwise_pair.mp (hone.sublist hsub)) ⟨hright, hleft⟩
  · intro hedge
    refine scoreboardCells_apart.imp ?_
    rintro ⟨ax, ay⟩ ⟨bx, by'⟩ hapart ⟨⟨hax, hay⟩, hbx, hby⟩
    simp only at hapart hax hay hbx hby
    rcases hapart with h | h | h | h | ⟨hrow, hmem, ⟨hcol, hcolumn⟩ | ⟨hcol, hcolumn⟩⟩
    · omega
    · omega
    · omega
    · omega
    · -- neighbours in a row: the pixel is in the column where they meet
      have heq : drawX.toNat = bx := by omega
      exact hedge ⟨heq ▸ hcolumn, ay, hmem, hay⟩
    · have heq : drawX.toNat = ax := by omega
      exact hedge ⟨heq ▸ hcolumn, ay, hmem, hay⟩

/-- Off the common edges the order of the chain is irrelevant. -/
theorem scoreboard_order {drawX drawY : BitVec 10} (hedge : ¬ OnCellEdge drawX drawY) (s : Scores)
    {order : List CharCell} (hp : order.Perm scoreboardCells) :
    chain (CharCell.pixel drawX drawY) (CharCell.body s drawX drawY) ⟨false, 0, 0⟩ order
      = scoreboard s drawX drawY := by
  have hone := (scoreboardCells_pairwise_iff drawX drawY).mpr hedge
  have hsymm : Std.Symm fun c c' : CharCell =>
      ¬ (c.pixel drawX drawY = true ∧ c'.pixel drawX drawY = true) :=
    ⟨fun _ _ hnot hboth => hnot ⟨hboth.2, hboth.1⟩⟩
  refine chain_perm_of_mem _ _ (fun c hc c' hc' h h' => ?_) hp
  by_contra hne
  exact hone.forall hc hc' hne ⟨h, h'⟩

/-! ### Addresses -/

/-- The address a cell reads at a pixel. -/
def CharCell.address (s : Scores) (c : CharCell) (q : BitVec 10 × BitVec 10) : ℕ :=
  (c.body s q.1 q.2).charReadAddress.toNat

/-- The cell's own pixels, 30 columns and 45 rows. -/
def CharCell.own (c : CharCell) : Set (BitVec 10 × BitVec 10) :=
  {q | q.1 - c.x < charXSize ∧ q.2 - c.y < charYSize}

/-- The pixels at which the test of the cell holds. -/
def CharCell.claimed (c : CharCell) : Set (BitVec 10 × BitVec 10) := {q | c.pixel q.1 q.2 = true}

/-- The pixels at which the chain takes the arm of the cell. -/
def CharCell.taken (c : CharCell) : Set (BitVec 10 × BitVec 10) :=
  {q | firstArm (CharCell.pixel q.1 q.2) scoreboardCells = some c}

/-- The address at a claimed pixel is that of its cell in the character. -/
theorem CharCell.address_eq (c : CharCell) (s : Scores) {q : BitVec 10 × BitVec 10}
    (hq : InCell q.1 q.2 c.corner) :
    c.address s q = cellAddress 30 (q.1.toNat - c.x.toNat) (q.2.toNat - c.y.toNat) :=
  have hcol : c.x.toNat ≤ q.1.toNat ∧ q.1.toNat ≤ c.x.toNat + charXSize.toNat := hq.1
  have hrow : c.y.toNat ≤ q.2.toNat ∧ q.2.toNat ≤ c.y.toNat + charYSize.toNat := hq.2
  spriteAddress_toNat hcol hrow (by decide)

/-- **Own pixels.** On the cell's own pixels the addresses are a bijection onto the 1350 words of
    a character memory. -/
theorem CharCell.address_bijOn {c : CharCell} (hc : c ∈ scoreboardCells) (s : Scores) :
    Set.BijOn (c.address s) c.own (Set.Iio 1350) := by
  -- the offset of a pixel in its cell, then the address of that cell of the character
  have hoffset : Set.BijOn (fun q : BitVec 10 × BitVec 10 =>
      ((q.1 - c.x).toNat, (q.2 - c.y).toNat)) c.own {d | d.1 < 30 ∧ d.2 < 45} :=
    offset_bijOn c.x c.y charXSize charYSize
  refine ((cellAddress_bijOn 30 45).comp hoffset).congr fun q hq => ?_
  have hpixel : c.pixel q.1 q.2 = true :=
    inWindow_eq_true.mpr ⟨BitVec.le_of_lt hq.1, BitVec.le_of_lt hq.2⟩
  have hin := (CharCell.pixel_iff hc q.1 q.2).mp hpixel
  rw [c.address_eq s hin]
  show cellAddress 30 (q.1 - c.x).toNat (q.2 - c.y).toNat = _
  rw [BitVec.toNat_sub_of_le (BitVec.le_def.mpr hin.1.1),
    BitVec.toNat_sub_of_le (BitVec.le_def.mpr hin.2.1)]

/-- A pixel in the last row of each cell, which lies past the character. -/
def CharCell.pastEnd (c : CharCell) : BitVec 10 × BitVec 10 := (c.x + 1, c.y + 45)

/-- Every cell claims that pixel, and the chain gives it to the cell. -/
theorem CharCell.pastEnd_mem :
    ∀ c ∈ scoreboardCells, c.pastEnd ∈ c.claimed ∧ c.pastEnd ∈ c.taken := by
  simp only [scoreboardCells, List.forall_mem_cons]
  refine ⟨⟨rfl, rfl⟩, ⟨rfl, rfl⟩, ⟨rfl, rfl⟩, ⟨rfl, rfl⟩, ⟨rfl, rfl⟩, ⟨rfl, rfl⟩, ⟨rfl, rfl⟩,
    ⟨rfl, rfl⟩, ⟨rfl, rfl⟩, ⟨rfl, rfl⟩, ⟨rfl, rfl⟩, ⟨rfl, rfl⟩, ⟨rfl, rfl⟩, ⟨rfl, rfl⟩, ⟨rfl, rfl⟩,
    ⟨rfl, rfl⟩, ?_⟩
  intro c hc
  exact absurd hc List.not_mem_nil

/-- **All claimed pixels.** On no set of pixels that contains that one are the addresses a
    bijection onto the character memory. -/
theorem CharCell.not_bijOn {c : CharCell} (hc : c ∈ scoreboardCells) (s : Scores)
    {pixels : Set (BitVec 10 × BitVec 10)} (hmem : c.pastEnd ∈ pixels) :
    ¬ Set.BijOn (c.address s) pixels (Set.Iio 1350) := by
  intro hbij
  obtain ⟨hx, hy⟩ := scoreboardCells_onScreen c hc
  have hpx : (c.x + 1).toNat = c.x.toNat + 1 := by bv_omega
  have hpy : (c.y + 45).toNat = c.y.toNat + 45 := by bv_omega
  have hcell : InCell (c.x + 1) (c.y + 45) c.corner := by
    unfold InCell CharCell.corner
    omega
  -- row 45, which the character does not have: the address is 1351
  have hlt : c.address s c.pastEnd < 1350 := hbij.mapsTo hmem
  rw [c.address_eq s (q := c.pastEnd) hcell] at hlt
  unfold cellAddress CharCell.pastEnd at hlt
  simp only [hpx, hpy] at hlt
  omega

/-! ### Regions -/

/-- The region test of the map. -/
def bgMapTest (drawX drawY : BitVec 10) : Bool := inWindow drawX drawY 0 0 320 480
/-- The region test of the upper score panel. -/
def bgScore1Test (drawX drawY : BitVec 10) : Bool := inWindow drawX drawY 320 0 320 240
/-- The region test of the lower score panel. -/
def bgScore2Test (drawX drawY : BitVec 10) : Bool := inWindow drawX drawY 320 240 320 240

/-- The three region tests, in the order of the source's chain. -/
def bgTests : List (BitVec 10 → BitVec 10 → Bool) := [bgMapTest, bgScore1Test, bgScore2Test]

theorem bgCreate_eq (drawX drawY : BitVec 10) :
    bgCreate drawX drawY = if bgMapTest drawX drawY then 0b01
      else if bgScore1Test drawX drawY then 0b10
      else if bgScore2Test drawX drawY then 0b11 else 0b00 := rfl

/-- **Region tests.** At most one of the three holds at a pixel of the screen if and only if it is
    on the map left of the panels, or on the panels off both common edges. -/
theorem bgTests_pairwise_iff {drawX drawY : BitVec 10} (hx : drawX < 640) (hy : drawY < 480) :
    (bgTests.Pairwise fun t t' => ¬ (t drawX drawY = true ∧ t' drawX drawY = true)) ↔
      drawX < 320 ∨ (320 < drawX ∧ drawY ≠ 240) := by
  have hmap : bgMapTest drawX drawY = true ↔ drawX.toNat ≤ 320 ∧ drawY.toNat ≤ 480 := by
    refine (inWindow_iff (by decide) (by decide)).trans ?_
    simp
  have hscore1 : bgScore1Test drawX drawY = true ↔
      (320 ≤ drawX.toNat ∧ drawX.toNat ≤ 640) ∧ drawY.toNat ≤ 240 := by
    refine (inWindow_iff (by decide) (by decide)).trans ?_
    simp
  have hscore2 : bgScore2Test drawX drawY = true ↔
      (320 ≤ drawX.toNat ∧ drawX.toNat ≤ 640) ∧ 240 ≤ drawY.toNat ∧ drawY.toNat ≤ 480 := by
    refine (inWindow_iff (by decide) (by decide)).trans ?_
    simp
  -- the map meets both panels in column 320, and the panels meet in row 240
  have hcond : drawX < 320 ∨ (320 < drawX ∧ drawY ≠ 240) ↔
      drawX.toNat < 320 ∨ (320 < drawX.toNat ∧ drawY.toNat ≠ 240) := by
    have heq : drawY = 240 ↔ drawY.toNat = 240 := by bv_omega
    rw [ne_eq, heq]
    rfl
  have hx' : drawX.toNat < 640 := BitVec.lt_def.mp hx
  have hy' : drawY.toNat < 480 := BitVec.lt_def.mp hy
  rw [hcond]
  simp only [bgTests, List.pairwise_cons, List.forall_mem_cons, List.Pairwise.nil, and_true,
    hmap, hscore1, hscore2]
  simp only [List.not_mem_nil, IsEmpty.forall_iff, implies_true, and_true]
  omega

/-! ### The tiles -/

/-- **The tiles of the panel.** At a pixel of the screen at most one of the sixteen cell tests
    holds, and then in whatever order they are tested, if and only if it is not on the common edge
    of two cells; the addresses of a cell are a bijection onto the words of a character on the
    cell's own pixels, and on neither all the pixels it tests for nor those the chain gives it; at
    most one of the three region tests holds if and only if the pixel is off the regions' edges. -/
theorem scoreboard_tiles_iff (s : Scores) :
    (∀ drawX drawY : BitVec 10, drawX < 640 → drawY < 480 →
      ((scoreboardCells.Pairwise fun c c' =>
          ¬ (c.pixel drawX drawY = true ∧ c'.pixel drawX drawY = true)) ↔
        ¬ OnCellEdge drawX drawY) ∧
      (¬ OnCellEdge drawX drawY → ∀ order : List CharCell, order.Perm scoreboardCells →
        chain (CharCell.pixel drawX drawY) (CharCell.body s drawX drawY) ⟨false, 0, 0⟩ order
          = scoreboard s drawX drawY) ∧
      ((bgTests.Pairwise fun t t' => ¬ (t drawX drawY = true ∧ t' drawX drawY = true)) ↔
        drawX < 320 ∨ (320 < drawX ∧ drawY ≠ 240))) ∧
    (∀ c ∈ scoreboardCells,
      Set.BijOn (c.address s) c.own (Set.Iio 1350) ∧
      ¬ Set.BijOn (c.address s) c.claimed (Set.Iio 1350) ∧
      ¬ Set.BijOn (c.address s) c.taken (Set.Iio 1350)) := by
  refine ⟨fun drawX drawY hx hy => ⟨scoreboardCells_pairwise_iff drawX drawY, ?_,
    bgTests_pairwise_iff hx hy⟩, fun c hc => ⟨c.address_bijOn hc s, ?_, ?_⟩⟩
  · intro hedge order hp
    exact scoreboard_order hedge s hp
  · exact c.not_bijOn hc s (c.pastEnd_mem hc).1
  · exact c.not_bijOn hc s (c.pastEnd_mem hc).2

/-- Pixel (540, 150) passes the tests of two hearts, which read words 30 and 0 there, pixel
    (510, 195) reads word 1350 of the first heart, and pixel (320, 0) is in two regions. -/
theorem scoreboard_overlaps :
    (heart0P1.pixel 540 150 = true ∧ heart1P1.pixel 540 150 = true) ∧
    ((heart0P1.body (scoreDigits 0) 540 150).charReadAddress = 30 ∧
      (heart1P1.body (scoreDigits 0) 540 150).charReadAddress = 0) ∧
    (heart0P1.pixel 510 195 = true ∧ (scoreboard (scoreDigits 0) 510 195).charReadAddress = 1350) ∧
    (bgMapTest 320 0 = true ∧ bgScore1Test 320 0 = true) := by
  decide

end NsShaft
