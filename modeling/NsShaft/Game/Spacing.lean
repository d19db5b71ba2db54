import NsShaft.Game.Contact
import NsShaft.Game.Draw
import NsShaft.Game.Frame
import NsShaft.Hdl.Window
import Mathlib.Tactic.FinCases

namespace NsShaft

open Hdl

/-!
# The floors never overlap

The five floors rise by one pixel a frame and re-enter at the bottom, each on its own cycle of
460 frames.

* `Floors.OnCycle` — the closed form of the positions `n` frames after a reset; `floors_yPos`
  is its instance for the frame runs.
* `Floors.Spaced` — no floor starts inside the window of another; `Floors.OnCycle.spaced`
  derives it from the distances mod 460 of the start heights.
* `contact_unique`, `floorPixel_unique` — under `Spaced`, at most one contact test and at most
  one draw test holds, so the order of either chain is irrelevant.
-/

/-! ### Closed form of the floor positions -/

/-- The height floor `i` starts at. -/
def floorYStart (i : Fin 5) : ℕ := (Floors.start.floorY i).toNat

/-- The floors as they stand `n` frames after a reset: every height is its start height minus
    `n`, mod 460, and the columns are those of the reset. -/
structure Floors.OnCycle (f : Floors) (n : ℕ) : Prop where
  xPos : f.xPos = Floors.start.xPos
  yPos : ∀ i : Fin 5, ((f.floorY i).toNat : ℤ) = ((floorYStart i : ℤ) - n) % 460

theorem Floors.onCycle_start : Floors.start.OnCycle 0 where
  xPos := rfl
  yPos := by intro i; fin_cases i <;> rfl

/-- **Step lemma.** A frame moves the floors one place further on their cycle. -/
theorem Floors.OnCycle.frame {f : Floors} {n : ℕ} (h : f.OnCycle n) : f.frame.OnCycle (n + 1) where
  xPos := h.xPos
  yPos := by
    intro i
    have hi := h.yPos i
    rw [Floors.frame_floorY, floorYPosIn_toNat]
    -- at the top 0 steps to 459, which is -1 mod 460
    split <;> omega

/-- On their cycle the floors keep the columns of the reset. -/
theorem Floors.OnCycle.floorX {f : Floors} {n : ℕ} (h : f.OnCycle n) (i : Fin 5) :
    f.floorX i = Floors.start.floorX i := by
  unfold Floors.floorX
  rw [h.xPos]

/-- On their cycle the floors stand no lower than their re-entry height. -/
theorem Floors.OnCycle.le {f : Floors} {n : ℕ} (h : f.OnCycle n) (i : Fin 5) :
    (f.floorY i).toNat ≤ 459 := by
  have hi := h.yPos i
  omega

theorem floors_onCycle (dirs : ℕ → BitVec 2) (n : ℕ) : (gameAt dirs n).floors.OnCycle n := by
  induction n with
  | zero => exact Floors.onCycle_start
  | succ n ih => exact ih.frame

/-- **Closed form.** After `n` frames floor `i` stands at its start height minus `n`, mod 460. -/
theorem floors_yPos (dirs : ℕ → BitVec 2) (n : ℕ) (i : Fin 5) :
    (((gameAt dirs n).floors.floorY i).toNat : ℤ) = ((floorYStart i : ℤ) - n) % 460 :=
  (floors_onCycle dirs n).yPos i

/-- The columns of the floors never change. -/
theorem floors_xPos (dirs : ℕ → BitVec 2) (n : ℕ) :
    (gameAt dirs n).floors.xPos = Floors.start.xPos :=
  (floors_onCycle dirs n).xPos

/-! ### Spacing -/

/-- No floor starts within `floor_y_size` below another one, counted mod 1024. -/
def Floors.Spaced (f : Floors) : Prop :=
  ∀ i j : Fin 5, i ≠ j → ¬ f.floorY i - f.floorY j ≤ floorYSize

/-- Any two start heights are at least 50 and at most 410 apart mod 460. -/
theorem floorYStart_far : ∀ i j : Fin 5, i ≠ j →
    50 ≤ ((floorYStart i : ℤ) - floorYStart j) % 460 ∧
      ((floorYStart i : ℤ) - floorYStart j) % 460 ≤ 410 := by decide

/-- **Spacing.** On their cycle the five floors are spaced. -/
theorem Floors.OnCycle.spaced {f : Floors} {n : ℕ} (h : f.OnCycle n) : f.Spaced := by
  intro i j hij hle
  have hi := h.yPos i
  have hj := h.yPos j
  obtain ⟨hlo, hhi⟩ := floorYStart_far i j hij
  have hnear : (1024 - (f.floorY j).toNat + (f.floorY i).toNat) % 1024 ≤ 20 := by
    rw [BitVec.le_def, BitVec.toNat_sub] at hle
    exact hle
  -- both heights are below 460, so near mod 1024 would mean near mod 460
  omega

/-- In every frame the five floors are spaced. -/
theorem floors_spaced (dirs : ℕ → BitVec 2) (n : ℕ) : (gameAt dirs n).floors.Spaced :=
  (floors_onCycle dirs n).spaced

/-! ### At most one test holds -/

/-- Spaced floors: a player touches at most one of them. -/
theorem contact_unique {f : Floors} (hf : f.Spaced) (p : Player) (i j : Fin 5)
    (hi : contact p f i = true) (hj : contact p f j = true) : i = j :=
  window_unique hf (contact_window hi) (contact_window hj)

/-- Spaced floors: a pixel belongs to at most one of them. -/
theorem floorPixel_unique {f : Floors} (hf : f.Spaced) (drawX drawY : BitVec 10) (i j : Fin 5)
    (hi : floorPixel f drawX drawY i = true) (hj : floorPixel f drawX drawY j = true) : i = j :=
  window_unique hf (inWindow_eq_true.mp hi).2 (inWindow_eq_true.mp hj).2

/-- **Floors never overlap.**  After every number `n` of frames the heights are the start
    heights minus `n` mod 460 and the columns are unchanged; hence at most one draw test and at
    most one contact test holds, and both chains give the same outputs in any order of their
    five floor arms. -/
theorem floors_order_irrelevant (dirs : ℕ → BitVec 2) (n : ℕ) :
    (∀ i : Fin 5, (((gameAt dirs n).floors.floorY i).toNat : ℤ)
        = ((#v[120, 200, 300, 350, 420] : Vector ℤ 5).get i - n) % 460) ∧
    (gameAt dirs n).floors.xPos = #v[60, 80, 50, 190, 140] ∧
    (∀ (drawX drawY : BitVec 10) (i j : Fin 5),
      floorPixel (gameAt dirs n).floors drawX drawY i = true →
      floorPixel (gameAt dirs n).floors drawX drawY j = true → i = j) ∧
    (∀ (p : Player) (i j : Fin 5), contact p (gameAt dirs n).floors i = true →
      contact p (gameAt dirs n).floors j = true → i = j) ∧
    (∀ (order : List (Fin 5)), order.Perm floorOrder → ∀ drawX drawY : BitVec 10,
      drawFloorIn order (gameAt dirs n).floors drawX drawY
        = drawFloor (gameAt dirs n).floors drawX drawY) ∧
    (∀ (order : List (Fin 5)), order.Perm floorOrder → ∀ (p : Player) (yPosIn yMotionIn : BitVec 10),
      floorChainIn order p (gameAt dirs n).floors yPosIn yMotionIn
        = floorChain p (gameAt dirs n).floors yPosIn yMotionIn) := by
  have hf := floors_spaced dirs n
  refine ⟨fun i => ?_, floors_xPos dirs n, floorPixel_unique hf, contact_unique hf, ?_, ?_⟩
  · rw [floors_yPos dirs n i]
    fin_cases i <;> rfl
  · intro order hp drawX drawY
    rw [drawFloor_eq]
    exact chain_perm _ _ (floorPixel_unique hf drawX drawY) hp
  · intro order hp p y m
    rw [floorChain_eq]
    exact chain_perm _ _ (contact_unique hf p) hp

end NsShaft
