import NsShaft.Game.Draw

namespace NsShaft

open Hdl

/-!
# The panel: `score_keeper`, `scoreboard` and `bgCreate`

* `scoreKeeperNext`, `scoreDigits` — the free-running score counter and its four digits.
* `scoreboard` — which pixels show a character, which one, and at which cell of its ROM.
* `bgCreate` — the three background regions.
-/

/-! ### `score_keeper.sv` -/

/-- `score0` (units) to `score3`. -/
@[ext] structure Scores where
  score0 : BitVec 4
  score1 : BitVec 4
  score2 : BitVec 4
  score3 : BitVec 4
deriving DecidableEq, Repr

/-- One rising edge of `Clk` on `cur_score`. -/
def scoreKeeperNext (curScore : BitVec 51) (reset : Bool) : BitVec 51 :=
  if reset then 0 else curScore + 1

/-- `score_buf`, the slice `cur_score[40:25]`. -/
def scoreBuf (curScore : BitVec 51) : BitVec 16 := curScore.extractLsb' 25 16

/-- The digits of `score_buf`, each cut to the 4 bits of its output. -/
def scoreDigits (curScore : BitVec 51) : Scores where
  score0 := (scoreBuf curScore % 10).setWidth 4
  score1 := ((scoreBuf curScore % 100) / 10).setWidth 4
  score2 := ((scoreBuf curScore % 1000) / 100).setWidth 4
  score3 := ((scoreBuf curScore % 10000) / 1000).setWidth 4

/-- `ra_flag_1`. -/
def raFlag1 (curScore : BitVec 51) : BitVec 4 := curScore.extractLsb' 8 4
/-- `ra_flag_2`. -/
def raFlag2 (curScore : BitVec 51) : BitVec 4 := curScore.extractLsb' 4 4

/-! ### `scoreboard.sv` -/

/-- `char_x_size`. -/
def charXSize : BitVec 10 := 30
/-- `char_y_size`. -/
def charYSize : BitVec 10 := 45

/-- A character cell: its corner, and the index of the character it shows. -/
structure CharCell where
  x : BitVec 10
  y : BitVec 10
  charIdx : Scores → BitVec 4

def score1Cell0 : CharCell := ⟨600, 90, Scores.score0⟩
def score1Cell1 : CharCell := ⟨570, 90, Scores.score1⟩
def score1Cell2 : CharCell := ⟨540, 90, Scores.score2⟩
def score1Cell3 : CharCell := ⟨510, 90, Scores.score3⟩
def score2Cell0 : CharCell := ⟨600, 330, Scores.score0⟩
def score2Cell1 : CharCell := ⟨570, 330, Scores.score1⟩
def score2Cell2 : CharCell := ⟨540, 330, Scores.score2⟩
def score2Cell3 : CharCell := ⟨510, 330, Scores.score3⟩
def heart0P1 : CharCell := ⟨510, 150, fun _ => 10⟩
def heart1P1 : CharCell := ⟨540, 150, fun _ => 10⟩
def heart2P1 : CharCell := ⟨570, 150, fun _ => 10⟩
def heart3P1 : CharCell := ⟨600, 150, fun _ => 11⟩
def heart0P2 : CharCell := ⟨510, 385, fun _ => 10⟩
def heart1P2 : CharCell := ⟨540, 385, fun _ => 10⟩
def heart2P2 : CharCell := ⟨570, 385, fun _ => 10⟩
def heart3P2 : CharCell := ⟨600, 385, fun _ => 11⟩

/-- The sixteen cells in the order of the source's chain. -/
def scoreboardCells : List CharCell :=
  [score1Cell0, score1Cell1, score1Cell2, score1Cell3,
   score2Cell0, score2Cell1, score2Cell2, score2Cell3,
   heart0P1, heart1P1, heart2P1, heart3P1,
   heart0P2, heart1P2, heart2P2, heart3P2]

/-- `is_char`, `char_idx` and `char_read_address`. -/
structure DrawChar where
  isChar : Bool
  charIdx : BitVec 4
  charReadAddress : BitVec 19
deriving DecidableEq, Repr

/-- The window test of a cell. -/
def CharCell.pixel (drawX drawY : BitVec 10) (c : CharCell) : Bool :=
  inWindow drawX drawY c.x c.y charXSize charYSize

/-- What the arm of a cell assigns. -/
def CharCell.body (s : Scores) (drawX drawY : BitVec 10) (c : CharCell) : DrawChar :=
  ⟨true, c.charIdx s, spriteAddress drawX drawY c.x c.y charXSize⟩

/-- Module `scoreboard`: the chain over its sixteen cells. -/
def scoreboard (s : Scores) (drawX drawY : BitVec 10) : DrawChar :=
  chain (CharCell.pixel drawX drawY) (CharCell.body s drawX drawY) ⟨false, 0, 0⟩ scoreboardCells

/-! ### `bgCreat.sv` -/

/-- Module `bgCreate`: the map, the upper and the lower score panel. -/
def bgCreate (drawX drawY : BitVec 10) : BitVec 2 :=
  if inWindow drawX drawY 0 0 320 480 then 0b01
  else if inWindow drawX drawY 320 0 320 240 then 0b10
  else if inWindow drawX drawY 320 240 320 240 then 0b11
  else 0b00

end NsShaft
