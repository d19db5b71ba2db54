import NsShaft.Video.Panel
import NsShaft.Hdl.Counter
import NsShaft.Hdl.Machine

namespace NsShaft

open Hdl

/-!
# What the score display counts

`cur_score` counts the clock edges since reset, and the display shows the 16 bits `[40:25]` of
it in decimal.  These bits count the blocks of 2^25 edges and wrap at 65536, which is no multiple
of 10000.

* `scoreRun_toNat` — the counter after `n` edges.
* `Scores.value_scoreDigits` — the four digits are decimal and show `score_buf` mod 10000.
* `score_display_iff` — after which `n` the display shows the number of blocks mod 10000, and at
  which edges it moves on by one.
-/

/-! ### The counter -/

/-- `cur_score`, `n` edges after an edge with `Reset`. -/
def scoreRun (curScore : BitVec 51) (n : ℕ) : BitVec 51 :=
  trace scoreKeeperNext (scoreKeeperNext curScore true) (fun _ => false) n

theorem scoreRun_eq (curScore : BitVec 51) (n : ℕ) : scoreRun curScore n = BitVec.ofNat 51 n := by
  unfold scoreRun
  induction n with
  | zero => rfl
  | succ n ih =>
    rw [trace_succ, ih]
    unfold scoreKeeperNext
    simp [BitVec.ofNat_add]

theorem scoreRun_toNat (curScore : BitVec 51) (n : ℕ) :
    (scoreRun curScore n).toNat = n % 2 ^ 51 := by
  rw [scoreRun_eq, BitVec.toNat_ofNat]

theorem scoreBuf_toNat (curScore : BitVec 51) :
    (scoreBuf curScore).toNat = curScore.toNat / 2 ^ 25 % 2 ^ 16 := by
  unfold scoreBuf
  rw [BitVec.extractLsb'_toNat, Nat.shiftRight_eq_div_pow]

/-- **Blocks.** `score_buf` is the number of whole blocks of 2^25 edges, mod 65536: the counter
    is wide enough for its own wrap not to show. -/
theorem scoreBuf_scoreRun (curScore : BitVec 51) (n : ℕ) :
    (scoreBuf (scoreRun curScore n)).toNat = n / 2 ^ 25 % 65536 := by
  rw [scoreBuf_toNat, scoreRun_toNat]
  omega

/-! ### The digits -/

/-- The number that the four digits show. -/
def Scores.value (s : Scores) : ℕ :=
  1000 * s.score3.toNat + 100 * s.score2.toNat + 10 * s.score1.toNat + s.score0.toNat

/-- All four digits are decimal. -/
def Scores.Decimal (s : Scores) : Prop :=
  s.score0 ≤ 9 ∧ s.score1 ≤ 9 ∧ s.score2 ≤ 9 ∧ s.score3 ≤ 9

/-- A remainder below ten fits the 4 bits of an output. -/
theorem digit_toNat {b : BitVec 16} {d : ℕ} (hb : b.toNat = d) (hd : d ≤ 9) :
    (b.setWidth 4).toNat = d := by
  rw [BitVec.toNat_setWidth, hb]
  exact Nat.mod_eq_of_lt (by omega)

/-- The four outputs hold the digits of `score_buf`. -/
theorem scoreDigits_toNat (curScore : BitVec 51) :
    (scoreDigits curScore).score0.toNat = (scoreBuf curScore).toNat % 10 ∧
    (scoreDigits curScore).score1.toNat = (scoreBuf curScore).toNat % 100 / 10 ∧
    (scoreDigits curScore).score2.toNat = (scoreBuf curScore).toNat % 1000 / 100 ∧
    (scoreDigits curScore).score3.toNat = (scoreBuf curScore).toNat % 10000 / 1000 :=
  ⟨digit_toNat (by simp) (by omega), digit_toNat (by simp) (by omega),
    digit_toNat (by simp) (by omega), digit_toNat (by simp) (by omega)⟩

theorem scoreDigits_decimal (curScore : BitVec 51) : (scoreDigits curScore).Decimal := by
  obtain ⟨h0, h1, h2, h3⟩ := scoreDigits_toNat curScore
  refine ⟨?_, ?_, ?_, ?_⟩
  · show (scoreDigits curScore).score0.toNat ≤ 9
    omega
  · show (scoreDigits curScore).score1.toNat ≤ 9
    omega
  · show (scoreDigits curScore).score2.toNat ≤ 9
    omega
  · show (scoreDigits curScore).score3.toNat ≤ 9
    omega

/-- **Digits.** Together they show `score_buf` mod 10000. -/
theorem Scores.value_scoreDigits (curScore : BitVec 51) :
    (scoreDigits curScore).value = (scoreBuf curScore).toNat % 10000 := by
  obtain ⟨h0, h1, h2, h3⟩ := scoreDigits_toNat curScore
  unfold Scores.value
  rw [h0, h1, h2, h3]
  omega

/-! ### The display -/

/-- The number on the display, `n` edges after reset. -/
def display (curScore : BitVec 51) (n : ℕ) : ℕ := (scoreDigits (scoreRun curScore n)).value

theorem display_eq (curScore : BitVec 51) (n : ℕ) :
    display curScore n = n / 2 ^ 25 % 65536 % 10000 := by
  unfold display
  rw [Scores.value_scoreDigits, scoreBuf_scoreRun]

/-- The display shows the number of blocks mod 10000 if and only if the wraps of `score_buf` so
    far add up to a multiple of 10000, that is, if their number is a multiple of 625. -/
theorem display_eq_iff (curScore : BitVec 51) (n : ℕ) :
    display curScore n = n / 2 ^ 25 % 10000 ↔ 625 ∣ n / 2 ^ 41 := by
  have hwraps : n / 2 ^ 41 = n / 2 ^ 25 / 65536 := by omega
  rw [display_eq, hwraps]
  -- 65536 and 10000 have 16 in common, and 10000 is 16 times 625
  generalize n / 2 ^ 25 = blocks
  omega

/-- The display moves on by one at the end of each block and rests otherwise, if and only if
    `score_buf` does not wrap at this edge. -/
theorem display_succ_iff (curScore : BitVec 51) (n : ℕ) :
    display curScore (n + 1) =
        (if 2 ^ 25 ∣ n + 1 then (display curScore n + 1) % 10000 else display curScore n) ↔
      ¬ 2 ^ 41 ∣ n + 1 := by
  have hblock : 2 ^ 25 ∣ n + 1 ↔ n % 2 ^ 25 + 1 = 2 ^ 25 := by omega
  have hwrap : 2 ^ 41 ∣ n + 1 ↔ n % 2 ^ 25 + 1 = 2 ^ 25 ∧ n / 2 ^ 25 % 65536 + 1 = 65536 := by omega
  rw [display_eq, display_eq, succ_div_mod_eq (by decide) (by decide), hwrap]
  by_cases hend : n % 2 ^ 25 + 1 = 2 ^ 25
  · -- the end of a block: 5535 is followed by 0 if `score_buf` wraps, and 9999 in any case
    rw [if_pos hend, if_pos (hblock.mpr hend)]
    split_ifs <;> omega
  · rw [if_neg hend, if_neg fun h => hend (hblock.mp h)]
    omega

/-- **Score display.** After every number of edges since reset the digits are decimal; they show
    the number of blocks of 2^25 edges mod 10000 if and only if 625 divides the number of wraps of
    `score_buf`; the display moves on by one at the end of each block, and otherwise rests, at
    every edge but those at which `score_buf` wraps. -/
theorem score_display_iff (curScore : BitVec 51) (n : ℕ) :
    (scoreDigits (scoreRun curScore n)).Decimal ∧
    (display curScore n = n / 2 ^ 25 % 10000 ↔ 625 ∣ n / 2 ^ 41) ∧
    (display curScore (n + 1) =
        (if 2 ^ 25 ∣ n + 1 then (display curScore n + 1) % 10000 else display curScore n) ↔
      ¬ 2 ^ 41 ∣ n + 1) :=
  ⟨scoreDigits_decimal _, display_eq_iff curScore n, display_succ_iff curScore n⟩

/-- 2^41 edges after reset the display has jumped from 5535 to 0. -/
theorem score_display_jumps :
    display 0 (2 ^ 41 - 1) = 5535 ∧ display 0 (2 ^ 41) = 0 ∧ 2 ^ 41 / 2 ^ 25 % 10000 = 5536 := by
  rw [display_eq, display_eq]
  decide

end NsShaft
