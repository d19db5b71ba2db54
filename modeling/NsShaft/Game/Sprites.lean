import NsShaft.Game.Reachable

namespace NsShaft

open Hdl

/-!
# Sprites and their memories

`standROM` holds the 30 columns and 45 rows of the player, and the first 1800 words of a
`floorROM` memory the 90 columns and 20 rows of a floor.  The draw windows of `ball` are tested
with `<=` and claim one column and one row more, so that not every claimed pixel has a word to
itself.

* `drawPlayer_own_iff`, `drawFloor_own_iff` — which ones do.
* `sprites_own_iff` — both, for every position of the player and every reachable one of the
  floors.
-/

/-! ### The player -/

/-- Player pixels with a word of `standROM` to themselves. -/
theorem drawPlayer_own_iff {p : Player} (hx : p.xPos ≤ 319) (hy : p.yPos ≤ 434)
    {drawX drawY : BitVec 10} (hin : (drawPlayer p drawX drawY).isPlayer = true) :
    OwnsWord (fun drawX drawY => (drawPlayer p drawX drawY).isPlayer)
        (fun drawX drawY => (drawPlayer p drawX drawY).standReadAddress) 1350 drawX drawY ↔
      drawX - p.xPos < playerXSize ∧ drawY - p.yPos < playerYSize ∧
        (drawX = p.xPos → drawY = p.yPos) := by
  -- `is_player` is the window test, and the address of a claimed pixel that of its cell
  have hclaims : ∀ px py, (drawPlayer p px py).isPlayer
      = inWindow px py p.xPos p.yPos playerXSize playerYSize := by
    intro px py
    unfold drawPlayer
    by_cases h : inWindow px py p.xPos p.yPos playerXSize playerYSize = true <;> simp [h]
  have haddress : ∀ {px py}, inWindow px py p.xPos p.yPos playerXSize playerYSize = true →
      (drawPlayer p px py).standReadAddress = spriteAddress px py p.xPos p.yPos playerXSize := by
    intro px py h
    unfold drawPlayer
    rw [if_pos h]
  have hwindow : inWindow drawX drawY p.xPos p.yPos playerXSize playerYSize = true :=
    (hclaims drawX drawY).symm.trans hin
  rw [← ownsWord_iff p.xPos p.yPos playerXSize playerYSize
    (by unfold playerXSize; bv_omega) (by unfold playerYSize; bv_omega) (by decide) (by decide) hwindow]
  unfold OwnsWord
  simp only [hclaims]
  rw [haddress hwindow]
  refine and_congr Iff.rfl ⟨fun hone px py hpx heq => ?_, fun hone px py hpx heq => ?_⟩
  · exact hone px py hpx ((haddress hpx).trans heq)
  · exact hone px py hpx ((haddress hpx).symm.trans heq)

/-! ### The floors -/

/-- On spaced floors, `is_floor` is the number of the one floor whose window test holds. -/
theorem drawFloor_of_pixel {f : Floors} (hf : f.Spaced) {drawX drawY : BitVec 10} {i : Fin 5}
    (h : floorPixel f drawX drawY i = true) :
    drawFloor f drawX drawY = drawFloorBody f drawX drawY i := by
  have harm : firstArm (floorPixel f drawX drawY) floorOrder = some i :=
    firstArm_eq_some (floorPixel_unique hf drawX drawY) (mem_floorOrder i) h
  rw [drawFloor_eq]
  unfold drawFloorIn chain
  rw [harm]
  rfl

theorem drawFloor_isFloor_iff {f : Floors} (hf : f.Spaced) (drawX drawY : BitVec 10) (i : Fin 5) :
    (drawFloor f drawX drawY).isFloor = BitVec.ofNat 3 (i.val + 1) ↔
      floorPixel f drawX drawY i = true := by
  constructor
  · intro hfloor
    rcases harm : firstArm (floorPixel f drawX drawY) floorOrder with _ | j
    · -- no window test holds, so `is_floor` is 0
      rw [drawFloor_eq] at hfloor
      unfold drawFloorIn chain at hfloor
      rw [harm] at hfloor
      have hne : ∀ i : Fin 5, (0b000 : BitVec 3) ≠ BitVec.ofNat 3 (i.val + 1) := by decide
      exact absurd hfloor (hne i)
    · -- the numbers 1 to 5 are different words of 3 bits
      have hj := test_of_firstArm harm
      rw [drawFloor_of_pixel hf hj] at hfloor
      have hinj : ∀ i j : Fin 5, BitVec.ofNat 3 (j.val + 1) = BitVec.ofNat 3 (i.val + 1) → j = i := by
        decide
      exact hinj i j hfloor ▸ hj
  · intro h
    rw [drawFloor_of_pixel hf h]
    rfl

/-- Floor pixels with a word of the floor's memory to themselves. -/
theorem drawFloor_own_iff {f : Floors} {n : ℕ} (hf : f.OnCycle n) {drawX drawY : BitVec 10}
    {i : Fin 5} (hin : (drawFloor f drawX drawY).isFloor = BitVec.ofNat 3 (i.val + 1)) :
    OwnsWord (fun drawX drawY => (drawFloor f drawX drawY).isFloor == BitVec.ofNat 3 (i.val + 1))
        (fun drawX drawY => (drawFloor f drawX drawY).floorReadAddress) 1800 drawX drawY ↔
      drawX - f.floorX i < floorXSize ∧ drawY - f.floorY i < floorYSize ∧
        (drawX = f.floorX i → drawY = f.floorY i) := by
  have hx : ∀ j : Fin 5, (Floors.start.floorX j).toNat ≤ 190 := by decide
  have hcol : (f.floorX i).toNat ≤ 190 := by
    rw [hf.floorX i]
    exact hx i
  have hrow := hf.le i
  have hclaims : ∀ px py, ((drawFloor f px py).isFloor == BitVec.ofNat 3 (i.val + 1)) = true ↔
      floorPixel f px py i = true := by
    intro px py
    rw [beq_iff_eq]
    exact drawFloor_isFloor_iff hf.spaced px py i
  have haddress : ∀ {px py}, floorPixel f px py i = true →
      (drawFloor f px py).floorReadAddress = floorAddress f px py i := by
    intro px py h
    rw [drawFloor_of_pixel hf.spaced h]
    rfl
  have hwindow : floorPixel f drawX drawY i = true :=
    (drawFloor_isFloor_iff hf.spaced drawX drawY i).mp hin
  -- floors stand at most 190 from the left and 459 from the top, so no window wraps
  rw [← ownsWord_iff (f.floorX i) (f.floorY i) floorXSize floorYSize
    (by unfold floorXSize; bv_omega) (by unfold floorYSize; bv_omega) (by decide) (by decide) hwindow]
  unfold OwnsWord
  simp only [hclaims]
  rw [haddress hwindow]
  refine and_congr Iff.rfl ⟨fun hone px py hpx heq => ?_, fun hone px py hpx heq => ?_⟩
  · exact hone px py hpx ((haddress hpx).trans heq)
  · exact hone px py hpx ((haddress hpx).symm.trans heq)

/-! ### Both -/

/-- **Sprites.** For every position of the player on the screen, every reachable position of the
    floors and every pixel: a pixel of the player has a word of the 1350 of `standROM` to itself,
    and a pixel of floor `i` one of the floor's 1800, if and only if it is neither in the last
    column nor in the last row that the window test admits, nor in the first column below the
    first row, where the last column of the row above reads the same word. -/
theorem sprites_own_iff {p : Player} (hx : p.xPos ≤ 319) (hy : p.yPos ≤ 434) {g : Game}
    (hg : g.Reachable) (drawX drawY : BitVec 10) :
    ((drawPlayer p drawX drawY).isPlayer = true →
      (OwnsWord (fun drawX drawY => (drawPlayer p drawX drawY).isPlayer)
          (fun drawX drawY => (drawPlayer p drawX drawY).standReadAddress) 1350 drawX drawY ↔
        drawX - p.xPos < playerXSize ∧ drawY - p.yPos < playerYSize ∧
          (drawX = p.xPos → drawY = p.yPos))) ∧
    ∀ i : Fin 5, (drawFloor g.floors drawX drawY).isFloor = BitVec.ofNat 3 (i.val + 1) →
      (OwnsWord
          (fun drawX drawY => (drawFloor g.floors drawX drawY).isFloor == BitVec.ofNat 3 (i.val + 1))
          (fun drawX drawY => (drawFloor g.floors drawX drawY).floorReadAddress) 1800 drawX drawY ↔
        drawX - g.floors.floorX i < floorXSize ∧ drawY - g.floors.floorY i < floorYSize ∧
          (drawX = g.floors.floorX i → drawY = g.floors.floorY i)) := by
  obtain ⟨n, hn⟩ := hg.inv.floors
  exact ⟨drawPlayer_own_iff hx hy, fun i => drawFloor_own_iff hn⟩

/-- At the start the pixel `(189, 144)`, in the last column and row of the sprite itself, has the
    last word of `standROM` to itself. -/
theorem sprites_own_start :
    OwnsWord (fun drawX drawY => (drawPlayer Game.start.player drawX drawY).isPlayer)
      (fun drawX drawY => (drawPlayer Game.start.player drawX drawY).standReadAddress) 1350 189 144 :=
  ((sprites_own_iff (p := Game.start.player) (by decide) (by decide)
    (gameAt_reachable (fun _ => 0) 0) 189 144).1 (by decide)).mpr (by decide)

/-- At the start the pixels `(190, 100)` and `(160, 101)` of the player read the same word, and so
    do the pixels `(150, 120)` and `(60, 121)` of floor 1; the pixels `(160, 145)` and `(60, 140)`
    read past the sprites. -/
theorem sprites_share_words :
    (drawPlayer Game.start.player 190 100 = ⟨true, 30⟩ ∧
      drawPlayer Game.start.player 160 101 = ⟨true, 30⟩) ∧
    (drawFloor Floors.start 150 120 = ⟨0b001, 90⟩ ∧ drawFloor Floors.start 60 121 = ⟨0b001, 90⟩) ∧
    drawPlayer Game.start.player 160 145 = ⟨true, 1350⟩ ∧
    drawFloor Floors.start 60 140 = ⟨0b001, 1800⟩ := by
  decide

end NsShaft
